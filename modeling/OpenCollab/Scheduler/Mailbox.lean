import OpenCollab.Scheduler.Envelope
import OpenCollab.Scheduler.Unanswered
import OpenCollab.Session.State

/-!
# OpenCollab.Scheduler.Mailbox

Messages between teammates, as the scheduler queues and delivers them.

* `Box` — one agent: its inbox, the durable copy of it (`pendingUserMessages`),
  the user turns of its history and the delivery that is being appended;
* `Post` — the agents, the unanswered exchanges, and the passes that tell waiting
  senders that their recipient stopped;
* `Post.Step` — what happens between two awaits of the scheduler: a send, a
  drain, the end of an append, a hold, a notice, and whatever else the sessions
  do meanwhile.

The lock of a recipient is held while a delivery of its inbox is appended; a send,
a drain or a notice waits for it (`Post.Free`).  Ids are those of `uuid4`: new ones
differ from all before.
-/

namespace OpenCollab

open Lib

/-! ## one agent -/

inductive DeliveryStatus where
  | pending
  | heldAfterCancel
  | rejected (reason : String)
deriving DecidableEq, Repr

/-- A record of `pending_user_messages`; its `content` is the message's envelope. -/
structure PendingUserMessage where
  message : QueuedTeammateMessage
  deliveryStatus : DeliveryStatus
deriving DecidableEq, Repr

namespace PendingUserMessage

/-- The record is still to be delivered. -/
def isLive (item : PendingUserMessage) : Bool :=
  match item.deliveryStatus with
  | .rejected _ => false
  | _ => true

/-- The record a rejected message is marked on. -/
def isSame (message : QueuedTeammateMessage) (item : PendingUserMessage) : Bool :=
  (message.messageId ≠ "" && item.message.messageId = message.messageId) ||
    (message.messageId = "" && item.message.xml = message.xml &&
      item.message.fromAid = message.fromAid)

/-- The record a delivered message is discarded with. -/
def isDiscarded (message : QueuedTeammateMessage) (item : PendingUserMessage) : Bool :=
  if message.messageId ≠ "" then item.message.messageId = message.messageId
  else item.message.xml = message.xml

/-- One record under `_set_cancelled_turn_inbox_hold`. -/
def setHold (held : Bool) (item : PendingUserMessage) : PendingUserMessage :=
  match item.deliveryStatus with
  | .rejected _ => item
  | status =>
      if held || status = .heldAfterCancel then
        { item with deliveryStatus := if held then .heldAfterCancel else .pending }
      else item

end PendingUserMessage

open PendingUserMessage

/-- `_mark_message_rejected`: the first record of the message. -/
def markMessageRejected (message : QueuedTeammateMessage) (reason : String) :
    List PendingUserMessage → List PendingUserMessage
  | [] => []
  | item :: rest =>
      if item.isSame message then { item with deliveryStatus := .rejected reason } :: rest
      else item :: markMessageRejected message reason rest

/-- A user turn that is being appended, with what a failure goes back to.  The
batch is empty where the turn is not the inbox's. -/
structure Delivery where
  batch : List QueuedTeammateMessage
  messageCount : Nat
  phase : SessionPhase

/-- An agent as its teammates see it. -/
structure Box where
  role : String
  inbox : List QueuedTeammateMessage := []
  pendingUserMessages : List PendingUserMessage := []
  /-- The user turns of the history, by content. -/
  messages : List String := []
  phase : SessionPhase := .idle
  held : Bool := false
  delivery : Option Delivery := none
  /-- Every message that was accepted for this agent. -/
  accepted : List QueuedTeammateMessage := []

/-- What a drain finds besides the mailbox. -/
structure DrainView where
  /-- `_message_route_error` under the roster and topology of the moment. -/
  routeError : QueuedTeammateMessage → Option String
  /-- The public turn of the recipient was cancelled. -/
  cancelled : Bool
  /-- A driver, an open batch or a queued turn owns the session. -/
  busy : Bool
  /-- `_reserve_message_budget`. -/
  reserved : Bool

/-- `_FAILED_PHASES`. -/
def SessionPhase.isFailed (phase : SessionPhase) : Bool := phase = .stopped || phase = .error

namespace Box

/-- The two appends of an accepted message. -/
def enqueue (box : Box) (message : QueuedTeammateMessage) : Box :=
  { box with
    inbox := box.inbox ++ [message]
    pendingUserMessages := box.pendingUserMessages ++ [⟨message, .pending⟩]
    accepted := message :: box.accepted }

/-- Room for one more envelope of this size. -/
def hasRoom (box : Box) (size : Nat) : Bool :=
  box.inbox.length < maxTeammateInboxMessages && inboxSize box.inbox + size ≤ maxTeammateInboxBytes

/-- The messages the route check refuses, with the reason. -/
def refused (box : Box) (routeError : QueuedTeammateMessage → Option String) :
    List (QueuedTeammateMessage × String) :=
  box.inbox.filterMap fun message => (routeError message).map (message, ·)

/-- The refused messages leave the inbox and are marked in the durable copy. -/
def reject (box : Box) (routeError : QueuedTeammateMessage → Option String) : Box :=
  { box with
    inbox := box.inbox.filter fun message => (routeError message).isNone
    pendingUserMessages := (box.refused routeError).foldl
      (fun pending refusal => markMessageRejected refusal.1 refusal.2 pending)
      box.pendingUserMessages }

/-- `_set_cancelled_turn_inbox_hold`. -/
def setCancelledTurnInboxHold (box : Box) (held : Bool) : Box :=
  { box with
    held := held
    pendingUserMessages := box.pendingUserMessages.map (·.setHold held) }

/-- A user turn is accepted: a terminal phase is left, the turn is appended.  An
external turn that has to wait for an open batch is not appended yet. -/
def beginTurn (box : Box) (batch : List QueuedTeammateMessage) (content : Option String) : Box :=
  { box with
    messages := box.messages ++ content.toList
    phase := if box.phase.isTerminal then .idle else box.phase
    delivery := some ⟨batch, box.messages.length, box.phase⟩ }

/-- `_drain_message_inbox_locked` up to the append of the delivery. -/
def drain (box : Box) (view : DrainView) (shuttingDown : Bool) : Box :=
  if box.inbox.isEmpty then box
  else
    let box := box.reject view.routeError
    if box.inbox.isEmpty then box
    else if box.held || (view.cancelled && box.phase.isTerminal) then
      box.setCancelledTurnInboxHold true
    else if box.delivery.isSome || view.busy || box.phase = .awaitingEvents then box
    else
      let batch := boundedMessageBatch box.inbox
      if batch.isEmpty || shuttingDown || !view.reserved then box
      else box.beginTurn batch (some (deliveryText batch))

/-- The append succeeded: what was delivered is dequeued, in both copies. -/
def commit (box : Box) (delivery : Delivery) : Box :=
  { box with
    inbox := box.inbox.drop delivery.batch.length
    pendingUserMessages := delivery.batch.foldl
      (fun pending message => pending.eraseP (·.isDiscarded message)) box.pendingUserMessages
    delivery := none }

/-- The append failed: `restore_user_turn`. -/
def rollback (box : Box) (delivery : Delivery) : Box :=
  { box with
    messages := box.messages.take delivery.messageCount
    phase := delivery.phase
    delivery := none }

end Box

/-! ## the team -/

/-- `uuid.uuid4().hex`. -/
def IsHex (messageId : String) : Prop :=
  messageId.length = 32 ∧ messageId.toList.all "0123456789abcdef".toList.contains = true

/-- What `validate_role_identity` lets through, within `MAX_ROLE_IDENTITY_BYTES`. -/
structure RoleIdentity where
  name : String
  bounded : encodedSize name ≤ 128

/-- A running `notify_unanswered_senders`, with the exchanges it has yet to look at. -/
structure Notifier where
  aid : Nat
  reason : String
  role : RoleIdentity
  partialResult : Option String
  waiting : List (Nat × String)

structure Post where
  boxes : Nat → Option Box := fun _ => none
  nextAid : Nat := 0
  exchanges : Exchanges := {}
  shuttingDown : Bool := false
  /-- The ids given out so far. -/
  issued : List String := []
  notifiers : List Notifier := []

/-- `sys.maxsize`: no table of agents is larger. -/
def maxsize : Nat := 2 ^ 63 - 1

namespace Post

def setBox (s : Post) (aid : Nat) (box : Box) : Post :=
  { s with boxes := Function.update s.boxes aid (some box) }

/-- The drain of one agent; the exchanges of refused messages close. -/
def drainLocked (s : Post) (aid : Nat) (view : DrainView) : Post :=
  match s.boxes aid with
  | none => s
  | some box =>
      { s.setBox aid (box.drain view s.shuttingDown) with
        exchanges := (box.refused view.routeError).foldl
          (fun exchanges refusal => exchanges.reject refusal.1.fromAid aid refusal.1.messageId)
          s.exchanges }

/-- A message joins the inbox of `toAid`. -/
def accept (s : Post) (target : Box) (message : QueuedTeammateMessage) (exchanges : Exchanges) :
    Post :=
  { s.setBox message.toAid (target.enqueue message) with
    exchanges := exchanges
    issued := message.messageId :: s.issued }

/-- `send_message` once it holds the lock of `toAid`: the error it returns, or the
scheduler after the message was queued and the inbox drained. -/
def sendMessage (s : Post) (topologyForbids : String → String → Bool) (fromAid toAid : Nat)
    (summary content messageId sentAt : String) (view : DrainView) : Except String Post :=
  if toAid = fromAid then .error "Error: an agent cannot message itself."
  else if s.shuttingDown then .error "Error: scheduler is shutting down."
  else
    match s.boxes fromAid, s.boxes toAid with
    | none, _ => .error ("Error: no sending agent with aid " ++ toString fromAid ++ ".")
    | some _, none => .error ("Error: no agent with aid " ++ toString toAid ++ ".")
    | some sender, some target =>
        if topologyForbids sender.role target.role then
          .error ("Error: role '" ++ sender.role ++ "' is not permitted to message '" ++
            target.role ++ "' under the team topology.")
        else
          let xml := formatTeammateMessage fromAid summary content messageId
          if encodedSize xml > maxTeammateMessageBytes then
            .error ("Error: teammate message exceeds the " ++ toString maxTeammateMessageBytes ++
              "-byte limit.")
          else if target.inbox.length ≥ maxTeammateInboxMessages then
            .error ("Error: teammate inbox for aid " ++ toString toAid ++
              " is full (backpressure).")
          else if inboxSize target.inbox + encodedSize xml > maxTeammateInboxBytes then
            .error ("Error: teammate inbox for aid " ++ toString toAid ++ " exceeds the " ++
              toString maxTeammateInboxBytes ++ "-byte limit (backpressure).")
          else
            let message : QueuedTeammateMessage :=
              { fromAid, toAid, summary, content, xml, sentAt, messageId,
                fromRole := sender.role, toRole := target.role }
            .ok ((s.accept target message (s.exchanges.record fromAid toAid messageId)).drainLocked
              toAid view)

/-! ## stop notices -/

/-- The recipient has stopped. -/
def failed (s : Post) (aid : Nat) : Bool := (s.boxes aid).any (·.phase.isFailed)

/-- Still accepted for a later turn of the recipient, and not held. -/
def awaitsTurn (s : Post) (aid : Nat) (messageId : String) : Bool :=
  (s.boxes aid).any fun box => !box.held && box.inbox.any (·.messageId = messageId)

/-- A pass over the exchanges of a stopped agent begins: it looks at those that
wait at this moment. -/
def notifyUnansweredSenders (s : Post) (aid : Nat) (reason : String) (role : Option RoleIdentity)
    (partialResult : Option String) : Option Notifier :=
  if !s.failed aid || (s.exchanges.unanswered aid).entries.isEmpty || s.shuttingDown then none
  else role.map (⟨aid, reason, ·, partialResult, (s.exchanges.unanswered aid).entries⟩)

/-- What the environment answers while one notice is written. -/
structure NoticeView where
  messageId : String
  sentAt : String
  /-- `_notice_recovery_location`, before and after changes are retained. -/
  location : Option String
  retained : Option String
  drain : DrainView

/-- `" [truncated]"` after what was cut off. -/
def clipped (limit : Nat) (text : String) : String :=
  if (clip limit text) ≠ text then clip limit text ++ " [truncated]" else text

/-- What a notice says at least. -/
def noticeContent (n : Notifier) : String :=
  n.role.name ++ " (" ++ agentName n.aid ++ ") has stopped and will not answer your last " ++
    "message. Reason recorded by the runtime: " ++ clipped (maxTeammateMessageBytes / 16) n.reason

/-- `f"\n\n{extra}" if extra else ""`. -/
def withExtra (content extra : String) : String :=
  if extra = "" then content else content ++ "\n\n" ++ extra

/-- The partial result, or where the partial changes are. -/
def noticeExtra (n : Notifier) (view : NoticeView) : String :=
  match n.partialResult, view.location with
  | some result, _ => result
  | none, some location =>
      if location = "" then "" else "[Partial changes retained at " ++ location ++ "]"
  | none, none => ""

/-- What replaces an extra that makes the notice too large. -/
def noticeFallback (view : NoticeView) : String :=
  match view.retained with
  | some location =>
      if location = "" then "[Partial result exceeds the teammate message limit.]"
      else clipped (maxTeammateMessageBytes / 16)
        ("[Full partial changes retained at " ++ location ++ "]")
  | none => "[Partial result exceeds the teammate message limit.]"

/-- The text of a notice: with its extra where that fits. -/
def noticeText (n : Notifier) (view : NoticeView) : String :=
  let content := withExtra (noticeContent n) (noticeExtra n view)
  if encodedSize (noticeXml n.aid n.role.name view.messageId content) > maxTeammateMessageBytes then
    noticeContent n ++ "\n\n" ++ noticeFallback view
  else content

def notice (n : Notifier) (target : Box) (toAid : Nat) (view : NoticeView) :
    QueuedTeammateMessage :=
  { fromAid := n.aid
    toAid := toAid
    summary := n.role.name ++ " stopped"
    content := noticeText n view
    xml := noticeXml n.aid n.role.name view.messageId (noticeText n view)
    sentAt := view.sentAt
    messageId := view.messageId
    fromRole := n.role.name
    toRole := target.role
    kind := .stopNotice }

/-- The notice does not fit into the inbox of the agent that waits. -/
def refusesNotice (n : Notifier) (target : Box) (toAid : Nat) (view : NoticeView) : Bool :=
  !target.hasRoom (encodedSize (notice n target toAid view).xml)

/-- One exchange of a pass, under the lock of the agent that waits.  The flag
tells whether the pass goes on. -/
def notifyOne (s : Post) (n : Notifier) (toAid : Nat) (unansweredId : String)
    (view : NoticeView) : Post × Bool :=
  if s.exchanges.outstanding toAid n.aid ≠ some unansweredId then (s, true)
  else if !s.failed n.aid then (s, false)
  else if s.awaitsTurn n.aid unansweredId then (s, true)
  else if s.shuttingDown then (s, false)
  else
    match s.boxes toAid with
    | none => ({ s with exchanges := s.exchanges.drop toAid n.aid }, true)
    | some target =>
        if target.phase.isFailed then
          ({ s with exchanges := s.exchanges.drop toAid n.aid }, true)
        else if refusesNotice n target toAid view then (s, true)
        else
          ((s.accept target (notice n target toAid view)
            (s.exchanges.notice toAid n.aid unansweredId view.messageId)).drainLocked
              toAid view.drain, true)

/-! ## runs -/

/-- The lock of the inbox is free: no delivery of it is being appended. -/
def Free (s : Post) (aid : Nat) : Prop :=
  ∀ box, s.boxes aid = some box → ∀ d, box.delivery = some d → d.batch = []

/-- A new `uuid4`. -/
def Fresh (s : Post) (messageId : String) : Prop := IsHex messageId ∧ messageId ∉ s.issued

/-- What happens between two awaits. -/
inductive Step (topologyForbids : String → String → Bool) : Post → Post → Prop
  | seat {s : Post} (role : String) (hroom : s.nextAid < maxsize) :
      Step topologyForbids s { s.setBox s.nextAid { role } with nextAid := s.nextAid + 1 }
  | send {s s' : Post} {fromAid toAid : Nat} {summary content messageId sentAt : String}
      {view : DrainView} (hfree : s.Free toAid) (hfresh : s.Fresh messageId)
      (hsent : s.sendMessage topologyForbids fromAid toAid summary content messageId sentAt view =
        .ok s') : Step topologyForbids s s'
  | drain {s : Post} (aid : Nat) (view : DrainView) (hfree : s.Free aid) :
      Step topologyForbids s (s.drainLocked aid view)
  /-- The user turn that was being appended is in, or was taken back. -/
  | appended {s : Post} {aid : Nat} {box : Box} {d : Delivery} (hbox : s.boxes aid = some box)
      (hd : box.delivery = some d) : Step topologyForbids s (s.setBox aid (box.commit d))
  | appendFailed {s : Post} {aid : Nat} {box : Box} {d : Delivery}
      (hbox : s.boxes aid = some box) (hd : box.delivery = some d) :
      Step topologyForbids s (s.setBox aid (box.rollback d))
  /-- A turn of the user; it may have to wait for an open batch. -/
  | userTurn {s : Post} {aid : Nat} {box : Box} (content : Option String)
      (hbox : s.boxes aid = some box) (hd : box.delivery = none) :
      Step topologyForbids s (s.setBox aid (box.beginTurn [] content))
  | hold {s : Post} {aid : Nat} {box : Box} (held : Bool) (hbox : s.boxes aid = some box) :
      Step topologyForbids s (s.setBox aid (box.setCancelledTurnInboxHold held))
  /-- The driver of an agent goes on: it appends to the history, its phase changes. -/
  | drive {s : Post} {aid : Nat} {box : Box} (content : Option String) (phase : SessionPhase)
      (hbox : s.boxes aid = some box) (hd : box.delivery = none ∨ content = none) :
      Step topologyForbids s
        (s.setBox aid { box with messages := box.messages ++ content.toList, phase })
  | shutdown {s : Post} : Step topologyForbids s { s with shuttingDown := true }
  | notify {s : Post} {aid : Nat} {reason : String} {role : Option RoleIdentity}
      {partialResult : Option String} {n : Notifier}
      (hn : s.notifyUnansweredSenders aid reason role partialResult = some n) :
      Step topologyForbids s { s with notifiers := n :: s.notifiers }
  /-- A pass reaches its next exchange. -/
  | notifyOne {s s' : Post} {before after : List Notifier} {n : Notifier} {toAid : Nat}
      {unansweredId : String} {rest : List (Nat × String)} {view : NoticeView} {goesOn : Bool}
      (hn : s.notifiers = before ++ n :: after) (hw : n.waiting = (toAid, unansweredId) :: rest)
      (hfree : s.Free toAid) (hfresh : s.Fresh view.messageId)
      (hone : s.notifyOne n toAid unansweredId view = (s', goesOn)) :
      Step topologyForbids s { s' with
        notifiers := if goesOn then before ++ { n with waiting := rest } :: after
          else before ++ after }
  /-- A pass ends, or is cancelled. -/
  | notifierEnds {s : Post} {before after : List Notifier} {n : Notifier}
      (hn : s.notifiers = before ++ n :: after) :
      Step topologyForbids s { s with notifiers := before ++ after }

/-- The scheduler states a run reaches. -/
def Reachable (topologyForbids : String → String → Bool) (s : Post) : Prop :=
  Relation.ReflTransGen (Step topologyForbids) {} s

end Post

end OpenCollab
