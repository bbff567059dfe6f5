import OpenCollab.Lib.Dict
import Mathlib.Logic.Relation

/-!
# OpenCollab.Scheduler.Unanswered

The unanswered exchanges between teammates: for each agent, who waits for an
answer of it and for which message.

The `log` is what happened between the agents so far, latest first: every send
that was accepted, every message that a drain rejected, every exchange given up
or told about, whatever the map made of it.

* `waits` — which message one agent waits for an answer to, read off the log alone;
* `waits_eq_some` — it is the latest of its sends since the other last wrote, unless
  it was an answer itself, was rejected, given up or told about;
* `Exchanges.Sound.latest` — the map is what the log says;
* `Exchanges.Sound.settled`, `Sound.once` — an exchange that a notice closed is
  never outstanding again, and no exchange is closed by two notices.

Each operation of the scheduler keeps the invariant (`Sound.record`,
`Sound.reject`, `Sound.drop`, `Sound.notice`).
-/

namespace OpenCollab

open Lib

/-- What happens to the messages from one agent to another. -/
inductive ExchangeEvent where
  /-- A message was accepted. -/
  | sent (fromAid toAid : Nat) (messageId : String)
  /-- The drain of the recipient rejected the message. -/
  | rejected (fromAid toAid : Nat) (messageId : String)
  /-- The sender can no longer be told. -/
  | dropped (fromAid toAid : Nat)
  /-- A stop notice told the sender; `noticeId` is the notice's own id. -/
  | noticed (fromAid toAid : Nat) (messageId noticeId : String)
deriving DecidableEq, Repr

namespace ExchangeEvent

/-- The message whose sender a notice told. -/
def noticedId : ExchangeEvent → Option String
  | noticed _ _ messageId _ => some messageId
  | _ => none

/-- The event leaves `a` waiting for `b` to answer this message: it is no send between
the two, no rejection of the message, and `a` is not given up or told. -/
def leaves (a b : Nat) (messageId : String) : ExchangeEvent → Prop
  | sent c d _ => ¬(c = a ∧ d = b) ∧ ¬(c = b ∧ d = a)
  | rejected c d id => ¬(c = a ∧ d = b ∧ id = messageId)
  | dropped c d | noticed c d _ _ => ¬(c = a ∧ d = b)

end ExchangeEvent

open ExchangeEvent

/-! ## who waits for whom -/

/-- The message of `a` that `b` has not answered, after the events of a log.  A message
to an agent that waits for an answer is that answer. -/
def waits (a b : Nat) : List ExchangeEvent → Option String
  | [] => none
  | .sent c d messageId :: log =>
      if c = a ∧ d = b then
        if (waits b a log).isSome then none else some messageId
      else if c = b ∧ d = a then none
      else waits a b log
  | .rejected c d messageId :: log =>
      if c = a ∧ d = b ∧ waits a b log = some messageId then none else waits a b log
  | .dropped c d :: log => if c = a ∧ d = b then none else waits a b log
  | .noticed c d _ _ :: log => if c = a ∧ d = b then none else waits a b log

variable {a b : Nat} {id : String} {log : List ExchangeEvent}

/-- **Who waits, waits for its latest message**: no message between the two is newer,
the other was not waiting when it was sent, and nothing closed the exchange since. -/
theorem waits_eq_some : waits a b log = some id ↔ ∃ newer older,
    log = newer ++ .sent a b id :: older ∧ waits b a older = none ∧
      ∀ event ∈ newer, event.leaves a b id := by
  induction log with
  | nil => simp [waits]
  | cons event log ih =>
      -- an event that leaves the exchange stands before what the rest of the log says
      have hkeep : event.leaves a b id → (∀ c, event ≠ .sent a b c) →
          (waits a b log = some id ↔ ∃ newer older,
            event :: log = newer ++ .sent a b id :: older ∧ waits b a older = none ∧
              ∀ event ∈ newer, event.leaves a b id) := by
        intro hleaves hother
        rw [ih]
        constructor
        · intro ⟨newer, older, heq, hnone, hall⟩
          exact ⟨event :: newer, older, by rw [heq, List.cons_append], hnone,
            List.forall_mem_cons.mpr ⟨hleaves, hall⟩⟩
        · intro ⟨newer, older, heq, hnone, hall⟩
          cases newer with
          | nil => exact absurd (List.cons.inj heq).1 (hother id)
          | cons first newer =>
              exact ⟨newer, older, (List.cons.inj heq).2, hnone,
                fun e he => hall e (List.mem_cons_of_mem _ he)⟩
      -- an event that closes it is not among those that leave it
      have hclose : ¬event.leaves a b id → (∀ c, event ≠ .sent a b c) →
          ¬∃ newer older, event :: log = newer ++ .sent a b id :: older ∧
            waits b a older = none ∧ ∀ event ∈ newer, event.leaves a b id := by
        intro hleaves hother ⟨newer, older, heq, _, hall⟩
        cases newer with
        | nil => exact hother id (List.cons.inj heq).1
        | cons first newer =>
            rw [(List.cons.inj heq).1] at hleaves
            exact hleaves (hall first List.mem_cons_self)
      cases event with
      | sent c d messageId =>
          by_cases hself : c = a ∧ d = b
          · obtain ⟨rfl, rfl⟩ := hself
            rw [waits, if_pos ⟨rfl, rfl⟩]
            constructor
            · intro h
              split at h
              · contradiction
              · rename_i hnone
                obtain rfl := Option.some.inj h
                exact ⟨[], log, rfl, by simpa using hnone, by simp⟩
            · intro ⟨newer, older, heq, hnone, hall⟩
              cases newer with
              | nil =>
                  obtain ⟨hevent, rfl⟩ := List.cons.inj heq
                  rw [hnone]
                  simpa using hevent
              | cons first newer =>
                  have hfirst := hall first List.mem_cons_self
                  rw [← (List.cons.inj heq).1] at hfirst
                  exact absurd ⟨rfl, rfl⟩ hfirst.1
          · have hother : ∀ e, ExchangeEvent.sent c d messageId ≠ .sent a b e := by
              intro e h
              cases h
              exact hself ⟨rfl, rfl⟩
            rw [waits, if_neg hself]
            by_cases hback : c = b ∧ d = a
            · rw [if_pos hback]
              exact iff_of_false (by simp) (hclose (fun h => h.2 hback) hother)
            · rw [if_neg hback]
              exact hkeep ⟨hself, hback⟩ hother
      | rejected c d messageId =>
          have hother : ∀ e, ExchangeEvent.rejected c d messageId ≠ .sent a b e :=
            fun e h => by contradiction
          rw [waits]
          by_cases hpair : c = a ∧ d = b ∧ messageId = id
          · refine iff_of_false ?_ (hclose (fun h => h hpair) hother)
            obtain ⟨rfl, rfl, rfl⟩ := hpair
            split
            · simp
            · rename_i hnot
              exact fun h => hnot ⟨rfl, rfl, h⟩
          · rw [← hkeep hpair hother]
            split
            · rename_i hclosed
              rw [hclosed.2.2]
              refine iff_of_false (by simp) fun h => hpair ⟨hclosed.1, hclosed.2.1, ?_⟩
              exact Option.some.inj h
            · rfl
      | dropped c d | noticed c d _ _ =>
          rw [waits]
          by_cases hpair : c = a ∧ d = b
          · rw [if_pos hpair]
            exact iff_of_false (by simp) (hclose (fun h => h hpair) fun e h => by contradiction)
          · rw [if_neg hpair]
            exact hkeep hpair fun e h => by contradiction

/-- A message that is waited for was sent. -/
theorem mem_of_waits (h : waits a b log = some id) : .sent a b id ∈ log := by
  obtain ⟨newer, older, rfl, -⟩ := waits_eq_some.mp h
  exact List.mem_append_right _ List.mem_cons_self

/-- **Two agents never wait for each other.** -/
theorem waits_not_both (hapart : ∀ c d messageId, .sent c d messageId ∈ log → c ≠ d)
    (h : waits a b log = some id) : waits b a log = none := by
  induction log with
  | nil => contradiction
  | cons event log ih =>
      have ih := fun h => ih (fun c d id hm => hapart c d id (List.mem_cons_of_mem _ hm)) h
      cases event with
      | sent c d messageId =>
          have hne := hapart c d messageId List.mem_cons_self
          rw [waits] at h ⊢
          by_cases hself : c = a ∧ d = b
          · rw [if_neg (fun hback => hne (hself.1.trans hback.2.symm)), if_pos hself]
          · rw [if_neg hself] at h
            by_cases hback : c = b ∧ d = a
            · rw [if_pos hback] at h
              contradiction
            · rw [if_neg hback] at h
              rw [if_neg hback, if_neg hself]
              exact ih h
      | rejected c d messageId =>
          rw [waits] at h ⊢
          split at h
          · contradiction
          · rw [ih h]
            split <;> rfl
      | dropped c d | noticed c d _ _ =>
          rw [waits] at h ⊢
          split at h
          · contradiction
          · rw [ih h]
            split <;> rfl

/-! ## the map -/

/-- `_unanswered`, and what happened between the agents. -/
structure Exchanges where
  unanswered : Nat → Dict Nat String := fun _ => .empty
  log : List ExchangeEvent := []

namespace Exchanges

/-- The message of `fromAid` that `toAid` has not answered. -/
def outstanding (e : Exchanges) (fromAid toAid : Nat) : Option String :=
  (e.unanswered toAid).get? fromAid

/-- `unanswered[to_aid][from_aid] = message_id`. -/
def put (e : Exchanges) (fromAid toAid : Nat) (messageId : String) : Nat → Dict Nat String :=
  Function.update e.unanswered toAid ((e.unanswered toAid).set fromAid messageId)

/-- `unanswered[to_aid].pop(from_aid, None)`. -/
def pop (e : Exchanges) (fromAid toAid : Nat) : Nat → Dict Nat String :=
  Function.update e.unanswered toAid ((e.unanswered toAid).erase fromAid)

/-- `_record_teammate_exchange`. -/
def record (e : Exchanges) (fromAid toAid : Nat) (messageId : String) : Exchanges where
  unanswered := match (e.unanswered fromAid).get? toAid with
    | some _ => e.pop toAid fromAid
    | none => e.put fromAid toAid messageId
  log := .sent fromAid toAid messageId :: e.log

/-- The exchange is dropped, whatever message it is for. -/
def drop (e : Exchanges) (fromAid toAid : Nat) : Exchanges :=
  ⟨e.pop fromAid toAid, .dropped fromAid toAid :: e.log⟩

/-- A rejected message closes the exchange that waits for it. -/
def reject (e : Exchanges) (fromAid toAid : Nat) (messageId : String) : Exchanges where
  unanswered :=
    if (e.unanswered toAid).get? fromAid = some messageId then e.pop fromAid toAid
    else e.unanswered
  log := .rejected fromAid toAid messageId :: e.log

/-- A notice is queued: it spends the exchange. -/
def notice (e : Exchanges) (fromAid toAid : Nat) (messageId noticeId : String) : Exchanges :=
  ⟨e.pop fromAid toAid, .noticed fromAid toAid messageId noticeId :: e.log⟩

/-! ## the map after an update -/

/-- What was sent is outstanding between its two agents, and nothing else changes. -/
theorem get?_put (e : Exchanges) (fromAid toAid : Nat) (messageId : String) (a b : Nat) :
    (e.put fromAid toAid messageId b).get? a =
      if a = fromAid ∧ b = toAid then some messageId else (e.unanswered b).get? a := by
  unfold put
  by_cases hb : b = toAid
  · subst hb
    by_cases ha : a = fromAid
    · subst ha
      simp [Dict.get?_set_self]
    · simp [ha, Dict.get?_set_of_ne]
  · simp [hb]

/-- What is dropped is outstanding no more, and nothing else changes. -/
theorem get?_pop (e : Exchanges) (fromAid toAid : Nat) (a b : Nat) :
    (e.pop fromAid toAid b).get? a =
      if a = fromAid ∧ b = toAid then none else (e.unanswered b).get? a := by
  unfold pop
  by_cases hb : b = toAid
  · subst hb
    by_cases ha : a = fromAid
    · subst ha
      simp [Dict.get?_erase_self]
    · simp [ha, Dict.get?_erase_of_ne]
  · simp [hb]

/-! ## the invariant -/

/-- **The map is what the log says**, and notices close exchanges once. -/
structure Sound (e : Exchanges) : Prop where
  /-- The map holds the messages that are waited for. -/
  latest : ∀ a b, e.outstanding a b = waits a b e.log
  /-- Agents do not write to themselves. -/
  apart : ∀ a b messageId, .sent a b messageId ∈ e.log → a ≠ b
  /-- A message is sent once. -/
  unique : ∀ a b c d messageId, .sent a b messageId ∈ e.log →
    .sent c d messageId ∈ e.log → a = c ∧ b = d
  settled : ∀ messageId ∈ e.log.filterMap noticedId, ∀ a b,
    e.outstanding a b ≠ some messageId
  /-- What a notice closed had been sent. -/
  known : ∀ messageId ∈ e.log.filterMap noticedId, ∃ a b, .sent a b messageId ∈ e.log
  once : (e.log.filterMap noticedId).Nodup

variable {e : Exchanges} {fromAid toAid : Nat} {messageId noticeId : String}

/-- Without messages nothing is outstanding. -/
theorem sound_empty : Sound {} where
  latest := fun _ _ => rfl
  apart := fun _ _ _ h => absurd h List.not_mem_nil
  unique := fun _ _ _ _ _ h => absurd h List.not_mem_nil
  settled := fun _ h => absurd h List.not_mem_nil
  known := fun _ h => absurd h List.not_mem_nil
  once := List.nodup_nil

/-- An outstanding message was sent. -/
theorem Sound.sent (h : Sound e) (ho : e.outstanding a b = some messageId) :
    .sent a b messageId ∈ e.log :=
  mem_of_waits ((h.latest a b) ▸ ho)

/-- A message is outstanding for one pair. -/
theorem Sound.pair_unique (h : Sound e) {c d : Nat} (h₁ : e.outstanding a b = some messageId)
    (h₂ : e.outstanding c d = some messageId) : a = c ∧ b = d :=
  h.unique a b c d messageId (h.sent h₁) (h.sent h₂)

/-- **Two agents never wait for each other.** -/
theorem Sound.not_both (h : Sound e) (ho : e.outstanding a b = some messageId) :
    e.outstanding b a = none := by
  rw [h.latest] at ho ⊢
  exact waits_not_both h.apart ho

/-- The rest of the invariant when nothing is sent and nobody is told: exchanges leave
the map as the log says. -/
theorem Sound.of_quiet (h : Sound e) {event : ExchangeEvent}
    {unanswered : Nat → Dict Nat String} (hsent : ∀ a b id, event ≠ .sent a b id)
    (hquiet : event.noticedId = none)
    (hless : ∀ a b id, (unanswered b).get? a = some id → e.outstanding a b = some id)
    (hlatest : ∀ a b, (unanswered b).get? a = waits a b (event :: e.log)) :
    Sound ⟨unanswered, event :: e.log⟩ := by
  have hids : (event :: e.log).filterMap noticedId = e.log.filterMap noticedId := by
    rw [List.filterMap_cons, hquiet]
  have hold : ∀ a b id, .sent a b id ∈ event :: e.log ↔ .sent a b id ∈ e.log := by
    intro a b id
    rw [List.mem_cons]
    exact or_iff_right fun heq => hsent a b id heq.symm
  constructor
  · exact hlatest
  · exact fun a b id hm => h.apart a b id ((hold a b id).mp hm)
  · intro a b c d id h₁ h₂
    rw [hold] at h₁ h₂
    exact h.unique a b c d id h₁ h₂
  · intro id hid a b hout
    rw [hids] at hid
    exact h.settled id hid a b (hless a b id hout)
  · intro id hid
    rw [hids] at hid
    obtain ⟨a, b, hm⟩ := h.known id hid
    exact ⟨a, b, (hold a b id).mpr hm⟩
  · rw [hids]
    exact h.once

/-- What is left of the map after one exchange was taken out was there. -/
theorem outstanding_of_pop (h : (e.pop fromAid toAid b).get? a = some id) :
    e.outstanding a b = some id := by
  rw [get?_pop] at h
  split at h
  · contradiction
  · exact h

/-- A dropped message keeps the exchanges sound. -/
theorem Sound.drop (h : Sound e) : Sound (e.drop fromAid toAid) := by
  refine h.of_quiet (fun _ _ _ he => by contradiction) rfl
    (fun a b id => outstanding_of_pop) fun a b => ?_
  rw [get?_pop, waits, ← h.latest]
  simp only [eq_comm (a := fromAid), eq_comm (a := toAid)]
  rfl

/-- So does a refused one. -/
theorem Sound.reject (h : Sound e) : Sound (e.reject fromAid toAid messageId) := by
  refine h.of_quiet (fun _ _ _ he => by contradiction) rfl (fun a b id hout => ?_)
    fun a b => ?_
  · split at hout
    · exact outstanding_of_pop hout
    · exact hout
  · rw [waits, ← h.latest]
    by_cases hpair : fromAid = a ∧ toAid = b
    · obtain ⟨rfl, rfl⟩ := hpair
      split
      · rename_i hout
        rw [get?_pop, if_pos ⟨rfl, rfl⟩, if_pos ⟨rfl, rfl, hout⟩]
      · rename_i hout
        rw [if_neg fun hclosed => hout hclosed.2.2]
        rfl
    · have hkept : (if fromAid = a ∧ toAid = b ∧ e.outstanding a b = some messageId then none
          else e.outstanding a b) = e.outstanding a b :=
        if_neg fun hclosed => hpair ⟨hclosed.1, hclosed.2.1⟩
      rw [hkept]
      split
      · rw [get?_pop, if_neg fun hback => hpair ⟨hback.1.symm, hback.2.symm⟩]
        rfl
      · rfl

/-- **A send** that nothing waits for is waited for; one that something waits for
answers it.  Either is in the log. -/
theorem Sound.record (h : Sound e) (hne : fromAid ≠ toAid)
    (hfresh : ∀ a b, .sent a b messageId ∉ e.log) : Sound (e.record fromAid toAid messageId) := by
  have hids : (.sent fromAid toAid messageId :: e.log).filterMap noticedId =
      e.log.filterMap noticedId := rfl
  have hnew : messageId ∉ e.log.filterMap noticedId := fun hid =>
    have ⟨a, b, hm⟩ := h.known messageId hid
    hfresh a b hm
  have hget : ∀ a b, (e.record fromAid toAid messageId).outstanding a b =
      waits a b (.sent fromAid toAid messageId :: e.log) := by
    intro a b
    rw [waits, ← h.latest, ← h.latest]
    show ((match (e.unanswered fromAid).get? toAid with
      | some _ => e.pop toAid fromAid
      | none => e.put fromAid toAid messageId) b).get? a = _
    by_cases hself : fromAid = a ∧ toAid = b
    · obtain ⟨rfl, rfl⟩ := hself
      rw [if_pos ⟨rfl, rfl⟩]
      show _ = if ((e.unanswered fromAid).get? toAid).isSome = true then none else some messageId
      cases hback : (e.unanswered fromAid).get? toAid with
      | none => rw [get?_put, if_pos ⟨rfl, rfl⟩, if_neg (by simp)]
      | some answered =>
          rw [get?_pop, if_neg fun heq => hne heq.1, Option.isSome_some, if_pos rfl]
          exact h.not_both hback
    · rw [if_neg hself]
      by_cases hback : fromAid = b ∧ toAid = a
      · obtain ⟨rfl, rfl⟩ := hback
        rw [if_pos ⟨rfl, rfl⟩]
        cases hget : (e.unanswered fromAid).get? toAid with
        | none => rw [get?_put, if_neg fun heq => hne heq.1.symm, hget]
        | some answered => rw [get?_pop, if_pos ⟨rfl, rfl⟩]
      · rw [if_neg hback]
        cases (e.unanswered fromAid).get? toAid with
        | none =>
            rw [get?_put, if_neg fun heq => hself ⟨heq.1.symm, heq.2.symm⟩]
            rfl
        | some answered =>
            rw [get?_pop, if_neg fun heq => hback ⟨heq.2.symm, heq.1.symm⟩]
            rfl
  constructor
  · exact hget
  · intro a b id hm
    rw [Exchanges.record, List.mem_cons, ExchangeEvent.sent.injEq] at hm
    rcases hm with ⟨rfl, rfl, -⟩ | hm
    · exact hne
    · exact h.apart a b id hm
  · intro a b c d id h₁ h₂
    rw [Exchanges.record, List.mem_cons, ExchangeEvent.sent.injEq] at h₁ h₂
    rcases h₁ with ⟨rfl, rfl, rfl⟩ | h₁
    · rcases h₂ with ⟨rfl, rfl, -⟩ | h₂
      · exact ⟨rfl, rfl⟩
      · exact absurd h₂ (hfresh c d)
    · rcases h₂ with ⟨rfl, rfl, rfl⟩ | h₂
      · exact absurd h₁ (hfresh a b)
      · exact h.unique a b c d id h₁ h₂
  · intro id hid a b hout
    rw [Exchanges.record, hids] at hid
    rw [hget, waits, ← h.latest, ← h.latest] at hout
    split at hout
    · split at hout
      · contradiction
      · rw [← Option.some.inj hout] at hid
        exact hnew hid
    · split at hout
      · contradiction
      · exact h.settled id hid a b hout
  · intro id hid
    rw [Exchanges.record, hids] at hid
    obtain ⟨a, b, hm⟩ := h.known id hid
    exact ⟨a, b, List.mem_cons_of_mem _ hm⟩
  · exact h.once

/-- A notice closes the exchange for good. -/
theorem Sound.notice (h : Sound e) (ho : e.outstanding fromAid toAid = some messageId) :
    Sound (e.notice fromAid toAid messageId noticeId) := by
  have hids : (e.notice fromAid toAid messageId noticeId).log.filterMap noticedId =
      messageId :: e.log.filterMap noticedId := rfl
  have hnew : messageId ∉ e.log.filterMap noticedId := fun hid =>
    h.settled messageId hid fromAid toAid ho
  have hsent : ∀ a b id, .sent a b id ∈ .noticed fromAid toAid messageId noticeId :: e.log →
      .sent a b id ∈ e.log := by
    intro a b id hm
    rw [List.mem_cons] at hm
    exact hm.resolve_left fun heq => by contradiction
  constructor
  · intro a b
    show (e.pop fromAid toAid b).get? a = waits a b (.noticed fromAid toAid messageId noticeId :: e.log)
    rw [get?_pop, waits, ← h.latest]
    simp only [eq_comm (a := fromAid), eq_comm (a := toAid)]
    rfl
  · exact fun a b id hm => h.apart a b id (hsent _ _ _ hm)
  · exact fun a b c d id h₁ h₂ => h.unique a b c d id (hsent _ _ _ h₁) (hsent _ _ _ h₂)
  · intro id hid a b hout
    change (e.pop fromAid toAid b).get? a = some id at hout
    have hold := outstanding_of_pop hout
    rw [hids, List.mem_cons] at hid
    rcases hid with rfl | hid
    · obtain ⟨rfl, rfl⟩ := h.pair_unique hold ho
      rw [get?_pop, if_pos ⟨rfl, rfl⟩] at hout
      contradiction
    · exact h.settled id hid a b hold
  · intro id hid
    rw [hids, List.mem_cons] at hid
    rcases hid with rfl | hid
    · exact ⟨fromAid, toAid, List.mem_cons_of_mem _ (h.sent ho)⟩
    · obtain ⟨a, b, hm⟩ := h.known id hid
      exact ⟨a, b, List.mem_cons_of_mem _ hm⟩
  · rw [hids, List.nodup_cons]
    exact ⟨hnew, h.once⟩

end Exchanges

end OpenCollab
