import OpenCollab.Text

/-!
# OpenCollab.Scheduler.Envelope

The XML envelopes teammate messages travel in, and their sizes in UTF-8.

`escape` and `quoteattr` are those of `xml.sax.saxutils`; each character takes at
most five, respectively six bytes (`size_escape_le`, `size_quoteattr_le`), which
bounds a stop notice before it is rendered (`size_noticeXml_le`).  A delivery is the
longest prefix of an inbox that fits (`boundedMessageBatch_spec`).
-/

namespace OpenCollab

/-! ## sizes -/

/-- `len(value.encode("utf-8"))`. -/
def encodedSize (value : String) : Nat := value.utf8ByteSize

/-- Sizes add up. -/
theorem encodedSize_append (a b : String) :
    encodedSize (a ++ b) = encodedSize a + encodedSize b := String.utf8ByteSize_append

/-- The size of a list of characters. -/
def charsSize : List Char → Nat
  | [] => 0
  | c :: cs => c.utf8Size + charsSize cs

/-- The size of a string is that of its characters. -/
theorem encodedSize_ofList (cs : List Char) : encodedSize (String.ofList cs) = charsSize cs := by
  induction cs with
  | nil => rfl
  | cons c cs ih =>
      have hcons : String.ofList (c :: cs) = String.singleton c ++ String.ofList cs := by
        rw [← String.toList_inj]
        simp
      rw [hcons, encodedSize_append, ih, charsSize]
      exact congrArg (· + _) String.utf8ByteSize_singleton

/-- The size of a string, read off its characters. -/
theorem encodedSize_eq (s : String) : encodedSize s = charsSize s.toList := by
  rw [← encodedSize_ofList, String.ofList_toList]

/-- Sizes of character lists add up. -/
theorem charsSize_append (a b : List Char) : charsSize (a ++ b) = charsSize a + charsSize b := by
  induction a with
  | nil => simp [charsSize]
  | cons c a ih => simp [charsSize, ih, Nat.add_assoc]

/-- A replacement that makes each character at most `k` bytes long. -/
theorem charsSize_flatMap_le {f : Char → List Char} {k : Nat} (hf : ∀ c, charsSize (f c) ≤ k)
    (cs : List Char) : charsSize (cs.flatMap f) ≤ k * cs.length := by
  induction cs with
  | nil => exact Nat.le_refl 0
  | cons c cs ih =>
      rw [List.flatMap_cons, charsSize_append, List.length_cons, Nat.mul_succ]
      have := hf c
      omega

/-- No character is larger than four bytes, or smaller than one. -/
theorem length_le_encodedSize (s : String) : s.length ≤ encodedSize s := by
  rw [encodedSize_eq, ← String.length_toList]
  induction s.toList with
  | nil => exact Nat.le_refl 0
  | cons c cs ih =>
      rw [charsSize, List.length_cons]
      have := c.utf8Size_pos
      omega

/-- ASCII characters take a byte each. -/
theorem charsSize_of_ascii {cs : List Char} (h : ∀ c ∈ cs, c.utf8Size = 1) :
    charsSize cs = cs.length := by
  induction cs with
  | nil => rfl
  | cons c cs ih =>
      rw [List.forall_mem_cons] at h
      rw [charsSize, List.length_cons, h.1, ih h.2, Nat.add_comm]

/-- Digits take one byte. -/
theorem encodedSize_toString (n : Nat) : encodedSize (toString n) = n.repr.length := by
  show encodedSize n.repr = _
  rw [encodedSize_eq, ← String.length_toList]
  refine charsSize_of_ascii fun c hc => ?_
  rw [Nat.repr_eq_ofList_toDigits, String.toList_ofList] at hc
  have hd := Nat.isDigit_of_mem_toDigits (by decide) (by decide) hc
  rw [Char.isDigit, Bool.and_eq_true, decide_eq_true_eq, decide_eq_true_eq] at hd
  have hle : c.val ≤ 127 := UInt32.le_trans hd.2 (by decide)
  exact if_pos hle

/-- A larger number is no shorter. -/
theorem size_toString_mono {m n : Nat} (h : m ≤ n) :
    encodedSize (toString m) ≤ encodedSize (toString n) := by
  rw [encodedSize_toString, encodedSize_toString, Nat.length_repr_le_iff Nat.length_repr_pos]
  exact Nat.lt_of_le_of_lt h ((Nat.length_repr_le_iff Nat.length_repr_pos).mp (Nat.le_refl _))

/-! ## escaping -/

/-- A character in character data. -/
def escapeChar : Char → List Char
  | '&' => "&amp;".toList
  | '<' => "&lt;".toList
  | '>' => "&gt;".toList
  | c => [c]

/-- `xml.sax.saxutils.escape`. -/
def escape (data : String) : String := String.ofList (data.toList.flatMap escapeChar)

/-- A character in an attribute value; a double quote is replaced where the value
is written between double quotes. -/
def escapeAttrChar (quoted : Bool) : Char → List Char
  | '\n' => "&#10;".toList
  | '\r' => "&#13;".toList
  | '\t' => "&#9;".toList
  | '"' => if quoted then "&quot;".toList else ['"']
  | c => escapeChar c

/-- `xml.sax.saxutils.quoteattr`. -/
def quoteattr (data : String) : String :=
  if '"' ∈ data.toList ∧ '\'' ∉ data.toList then
    "'" ++ String.ofList (data.toList.flatMap (escapeAttrChar false)) ++ "'"
  else "\"" ++ String.ofList (data.toList.flatMap (escapeAttrChar true)) ++ "\""

/-- An escaped character takes five bytes at most. -/
theorem charsSize_escapeChar (c : Char) : charsSize (escapeChar c) ≤ 5 := by
  unfold escapeChar
  split
  · decide
  · decide
  · decide
  · exact Nat.le_trans c.utf8Size_le_four (by decide)

/-- In an attribute it takes six. -/
theorem charsSize_escapeAttrChar (quoted : Bool) (c : Char) :
    charsSize (escapeAttrChar quoted c) ≤ 6 := by
  unfold escapeAttrChar
  split
  · decide
  · decide
  · decide
  · cases quoted <;> decide
  · exact Nat.le_trans (charsSize_escapeChar c) (by decide)

/-- The size of an escaped text. -/
theorem size_escape_le (data : String) : encodedSize (escape data) ≤ 5 * data.length := by
  rw [escape, encodedSize_ofList, ← String.length_toList]
  exact charsSize_flatMap_le charsSize_escapeChar _

/-- The size of a quoted attribute. -/
theorem size_quoteattr_le (data : String) : encodedSize (quoteattr data) ≤ 6 * data.length + 2 := by
  have hbody : ∀ quoted, encodedSize (String.ofList (data.toList.flatMap (escapeAttrChar quoted))) ≤
      6 * data.length := by
    intro quoted
    rw [encodedSize_ofList, ← String.length_toList]
    exact charsSize_flatMap_le (charsSize_escapeAttrChar quoted) _
  have hquote : encodedSize "\"" = 1 ∧ encodedSize "'" = 1 := by decide
  unfold quoteattr
  split
  · rw [encodedSize_append, encodedSize_append, hquote.2]
    have := hbody false
    omega
  · rw [encodedSize_append, encodedSize_append, hquote.1]
    have := hbody true
    omega

/-! ## envelopes -/

inductive MessageKind where
  | teammate
  | stopNotice
deriving DecidableEq, Repr

/-- A message an inbox holds, with the envelope `xml` it was accepted in. -/
structure QueuedTeammateMessage where
  fromAid : Nat
  toAid : Nat
  summary : String
  content : String
  xml : String
  sentAt : String
  messageId : String
  fromRole : String
  toRole : String
  kind : MessageKind := .teammate
deriving DecidableEq, Repr

/-- `f"A{aid}"`. -/
def agentName (aid : Nat) : String := "A" ++ toString aid

/-- `f" message_id={quoteattr(message_id)}" if message_id else ""`. -/
def messageIdAttr (messageId : String) : String :=
  if messageId = "" then "" else " message_id=" ++ quoteattr messageId

def formatTeammateMessage (fromAid : Nat) (summary content messageId : String) : String :=
  "<teammate-message teammate_id=" ++ quoteattr (agentName fromAid) ++
    " summary=" ++ quoteattr summary ++ messageIdAttr messageId ++ ">\n" ++
    escape content ++ "\n</teammate-message>"

/-- A message inside a batch: stop notices keep their envelope, the others say
when they were sent. -/
def batchEnvelope (message : QueuedTeammateMessage) : String :=
  match message.kind with
  | .stopNotice => message.xml
  | .teammate =>
      "<teammate-message teammate_id=" ++ quoteattr (agentName message.fromAid) ++
        " summary=" ++ quoteattr message.summary ++ " sent_at=" ++ quoteattr message.sentAt ++
        messageIdAttr message.messageId ++ ">\n" ++
        escape message.content ++ "\n</teammate-message>"

/-- `"\n".join(lines)`. -/
def joinLines : List String → String
  | [] => ""
  | [line] => line
  | line :: lines => line ++ "\n" ++ joinLines lines

def formatTeammateMessageBatch (messages : List QueuedTeammateMessage) : String :=
  "<teammate-messages count=\"" ++ toString messages.length ++ "\">\n" ++
    joinLines (messages.map batchEnvelope) ++ "\n</teammate-messages>"

/-- What the history is given for a batch: a single message goes as it was accepted. -/
def deliveryText : List QueuedTeammateMessage → String
  | [message] => message.xml
  | messages => formatTeammateMessageBatch messages

/-- `_notice_xml`. -/
def noticeXml (aid : Nat) (role messageId content : String) : String :=
  "<team-notice about=" ++ quoteattr (agentName aid) ++ " role=" ++ quoteattr role ++
    " message_id=" ++ quoteattr messageId ++ ">\n" ++ escape content ++ "\n</team-notice>"

/-! ## limits -/

def maxTeammateMessageBytes : Nat := 8 * 1024
def maxTeammateInboxMessages : Nat := 32
def maxTeammateInboxBytes : Nat := 64 * 1024
def maxTeammateDeliveryBytes : Nat := 16 * 1024

/-- `_inbox_size`. -/
def inboxSize (inbox : List QueuedTeammateMessage) : Nat :=
  (inbox.map fun message => encodedSize message.xml).foldr (· + ·) 0

/-- The loop of `_bounded_message_batch`. -/
def boundedFrom (batch : List QueuedTeammateMessage) :
    List QueuedTeammateMessage → List QueuedTeammateMessage
  | [] => batch
  | message :: rest =>
      if encodedSize (deliveryText (batch ++ [message])) > maxTeammateDeliveryBytes then batch
      else boundedFrom (batch ++ [message]) rest

/-- `_bounded_message_batch`. -/
def boundedMessageBatch (inbox : List QueuedTeammateMessage) : List QueuedTeammateMessage :=
  boundedFrom [] inbox

/-- The sizes of two inboxes add up. -/
theorem inboxSize_append (a b : List QueuedTeammateMessage) :
    inboxSize (a ++ b) = inboxSize a + inboxSize b := by
  induction a with
  | nil => simp [inboxSize]
  | cons m a ih =>
      simp only [inboxSize, List.cons_append, List.map_cons, List.foldr_cons] at ih ⊢
      rw [ih, Nat.add_assoc]

/-- Fewer messages take no more room. -/
theorem inboxSize_sublist {a b : List QueuedTeammateMessage} (h : a.Sublist b) :
    inboxSize a ≤ inboxSize b := by
  induction h with
  | slnil => exact Nat.le_refl 0
  | cons m _ ih =>
      simp only [inboxSize, List.map_cons, List.foldr_cons] at ih ⊢
      omega
  | cons_cons m _ ih =>
      simp only [inboxSize, List.map_cons, List.foldr_cons] at ih ⊢
      omega

/-! ## the longest bounded prefix -/

/-- Where the loop stops: every prefix it took fits, the next one does not. -/
theorem boundedFrom_spec (batch rest : List QueuedTeammateMessage) :
    ∃ k ≤ rest.length, boundedFrom batch rest = batch ++ rest.take k ∧
      (∀ j ≤ k, 0 < j →
        encodedSize (deliveryText (batch ++ rest.take j)) ≤ maxTeammateDeliveryBytes) ∧
      (k < rest.length →
        maxTeammateDeliveryBytes < encodedSize (deliveryText (batch ++ rest.take (k + 1)))) := by
  induction rest generalizing batch with
  | nil =>
      refine ⟨0, Nat.le_refl 0, by simp [boundedFrom], fun j hj hpos => ?_, fun h => ?_⟩
      · omega
      · exact absurd h (Nat.lt_irrefl 0)
  | cons m rest ih =>
      by_cases hbig : encodedSize (deliveryText (batch ++ [m])) > maxTeammateDeliveryBytes
      · refine ⟨0, Nat.zero_le _, by simp [boundedFrom, hbig], fun j hj hpos => ?_, fun _ => ?_⟩
        · omega
        · simpa using hbig
      · obtain ⟨k, hk, heq, hfit, hnext⟩ := ih (batch ++ [m])
        refine ⟨k + 1, by simpa using hk, ?_, fun j hj hpos => ?_, fun hlt => ?_⟩
        · rw [boundedFrom, if_neg hbig, heq]
          simp
        · obtain ⟨i, rfl⟩ : ∃ i, j = i + 1 := ⟨j - 1, by omega⟩
          by_cases hi : i = 0
          · subst hi
            simpa using Nat.le_of_not_lt hbig
          · have := hfit i (by omega) (by omega)
            simpa using this
        · have := hnext (by simpa using hlt)
          simpa using this

/-- A further line makes a text no shorter. -/
theorem encodedSize_joinLines_le (a : List String) (b : String) :
    encodedSize (joinLines a) ≤ encodedSize (joinLines (a ++ [b])) := by
  induction a with
  | nil => exact Nat.zero_le _
  | cons s a ih =>
      cases a with
      | nil =>
          simp only [List.nil_append, List.cons_append, joinLines, encodedSize_append]
          omega
      | cons t a =>
          simp only [List.cons_append, joinLines, encodedSize_append] at ih ⊢
          omega

/-- Several messages are delivered as a batch. -/
theorem deliveryText_of_two_le {messages : List QueuedTeammateMessage} (h : 2 ≤ messages.length) :
    deliveryText messages = formatTeammateMessageBatch messages := by
  unfold deliveryText
  split
  · simp at h
  · rfl

/-- A batch is larger than the batches it extends. -/
theorem size_batch_mono {a : List QueuedTeammateMessage} (m : QueuedTeammateMessage) :
    encodedSize (formatTeammateMessageBatch a) ≤
      encodedSize (formatTeammateMessageBatch (a ++ [m])) := by
  have hcount := size_toString_mono (Nat.le_add_right a.length 1)
  have hbody := encodedSize_joinLines_le (a.map batchEnvelope) (batchEnvelope m)
  unfold formatTeammateMessageBatch
  simp only [encodedSize_append, List.length_append, List.length_singleton, List.map_append,
    List.map_singleton]
  omega

/-- **The batch is the longest prefix that fits**: it is a prefix, its delivery
fits, and no longer prefix does. -/
theorem boundedMessageBatch_spec {inbox : List QueuedTeammateMessage}
    (hsize : ∀ m ∈ inbox, encodedSize m.xml ≤ maxTeammateMessageBytes) :
    ∃ k, boundedMessageBatch inbox = inbox.take k ∧ k ≤ inbox.length ∧
      (inbox ≠ [] → 0 < k) ∧
      (0 < k → encodedSize (deliveryText (inbox.take k)) ≤ maxTeammateDeliveryBytes) ∧
      ∀ n ≤ inbox.length, k < n →
        maxTeammateDeliveryBytes < encodedSize (deliveryText (inbox.take n)) := by
  obtain ⟨k, hk, heq, hfit, hnext⟩ := boundedFrom_spec [] inbox
  simp only [List.nil_append] at heq hfit hnext
  have hfirst : inbox ≠ [] →
      encodedSize (deliveryText (inbox.take 1)) ≤ maxTeammateDeliveryBytes := by
    intro hne
    obtain ⟨m, rest, rfl⟩ := List.exists_cons_of_ne_nil hne
    have := hsize m (by simp)
    simp only [List.take_succ_cons, List.take_zero, deliveryText]
    exact Nat.le_trans this (by decide)
  have hpos : inbox ≠ [] → 0 < k := by
    intro hne
    rw [Nat.pos_iff_ne_zero]
    rintro rfl
    have := hnext (List.length_pos_iff.mpr hne)
    exact absurd (hfirst hne) (Nat.not_le_of_lt this)
  refine ⟨k, heq, hk, hpos, fun h => hfit k (Nat.le_refl k) h, fun n hn hlt => ?_⟩
  have hne : inbox ≠ [] := List.length_pos_iff.mp (by omega)
  have hk₁ := hpos hne
  -- from two messages on, every extension is larger
  induction n with
  | zero => omega
  | succ n ih =>
      by_cases hkn : n = k
      · subst hkn
        exact hnext (by omega)
      · have hprev := ih (by omega) (by omega)
        have htake : inbox.take (n + 1) = inbox.take n ++ [inbox[n]] :=
          (List.take_append_getElem (by omega)).symm
        have hmono := size_batch_mono (a := inbox.take n) inbox[n]
        rw [← htake] at hmono
        rw [deliveryText_of_two_le (by rw [List.length_take]; omega)] at hprev ⊢
        omega

/-! ## the size of a notice -/

/-- `text[:limit]`. -/
def clip (limit : Nat) (text : String) : String := String.ofList (text.toList.take limit)

/-- A clipped text keeps the limit. -/
theorem length_clip_le (limit : Nat) (text : String) : (clip limit text).length ≤ limit := by
  rw [clip, String.length_ofList, List.length_take]
  exact Nat.min_le_left _ _

/-- **A notice is bounded by the lengths of what it is made of.** -/
theorem size_noticeXml_le (aid : Nat) (role messageId content : String) :
    encodedSize (noticeXml aid role messageId content) ≤
      6 * aid.repr.length + 6 * role.length + 6 * messageId.length + 5 * content.length + 66 := by
  have haid := size_quoteattr_le (agentName aid)
  have hrole := size_quoteattr_le role
  have hid := size_quoteattr_le messageId
  have hcontent := size_escape_le content
  have hname : (agentName aid).length = 1 + aid.repr.length := by
    rw [agentName, String.length_append]
    rfl
  have hfixed : encodedSize "<team-notice about=" + encodedSize " role=" +
      encodedSize " message_id=" + encodedSize ">\n" + encodedSize "\n</team-notice>" = 54 := by
    decide
  rw [hname] at haid
  unfold noticeXml
  simp only [encodedSize_append]
  omega

end OpenCollab
