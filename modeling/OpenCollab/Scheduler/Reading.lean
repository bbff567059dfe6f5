import OpenCollab.Lib.Xml
import OpenCollab.Scheduler.Messaging

/-!
# OpenCollab.Scheduler.Reading

Reading message ids back from the texts of a history.

`messageIdsInXml` takes the `message_id` attributes of the elements that
`xml.etree` finds in a text, and none where it finds no document; the parser is an
`ElementTree`.

* `scans_escape`, `scans_quoteattr` — character data and quoted values cannot leave
  their place, and an attribute is read back as it was written;
* `attribs_delivery` — what a delivery is read as, if all of it is legible;
* `messageIdsInXml_delivery` — it gives the ids of its messages.
-/

namespace OpenCollab

open Xml

/-! ## characters that are escaped -/

theorem mem_toString {n : Nat} {c : Char} (hc : c ∈ (toString n).toList) : c.isDigit = true := by
  change c ∈ n.repr.toList at hc
  rw [Nat.repr_eq_ofList_toDigits, String.toList_ofList] at hc
  exact Nat.isDigit_of_mem_toDigits (by decide) (by decide) hc

/-- A digit is a character of XML, and none that is replaced or has a meaning. -/
theorem isXmlChar_of_isDigit {c : Char} (hc : c.isDigit = true) : isXmlChar c = true := by
  rw [Char.isDigit, Bool.and_eq_true, decide_eq_true_eq, decide_eq_true_eq] at hc
  have hlo : 48 ≤ c.toNat := hc.1
  have hhi : c.toNat ≤ 57 := hc.2
  simp only [isXmlChar, Bool.or_eq_true, Bool.and_eq_true, decide_eq_true_eq]
  omega

theorem legible_agentName (aid : Nat) : Legible (agentName aid) := by
  rw [Legible, agentName, String.toList_append, List.all_append]
  refine Bool.and_eq_true_iff.mpr ⟨by decide, List.all_eq_true.mpr fun c hc => ?_⟩
  exact isXmlChar_of_isDigit (mem_toString hc)

theorem legible_hex {messageId : String} (h : IsHex messageId) : Legible messageId := by
  have hhex : "0123456789abcdef".toList.all isXmlChar = true := by decide
  refine List.all_eq_true.mpr fun c hc => ?_
  have hdigit := List.all_eq_true.mp h.2 c hc
  exact List.all_eq_true.mp hhex c (by simpa using hdigit)

variable {stack : List (List Char)} {elements : List Attributes}

/-- A character of XML that means nothing is read as it is. -/
theorem step_data {c : Char} (hc : isXmlChar c = true) (h : c ≠ '<' ∧ c ≠ '&' ∧ c ≠ '>') :
    Reader.step ⟨.data, stack, elements⟩ c = some ⟨.data, stack, elements⟩ := by
  simp [Reader.step, hc, Reader.advance, h]

theorem step_value {c quote : Char} {tag : Tag} {name before : List Char}
    (hc : isXmlChar c = true) (hquote : c ≠ quote) (h : c ≠ '<' ∧ c ≠ '&')
    (hblank : c ≠ '\t' ∧ c ≠ '\n' ∧ c ≠ '\r') :
    Reader.step ⟨.value tag name quote before, stack, elements⟩ c =
      some ⟨.value tag name quote (before ++ [c]), stack, elements⟩ := by
  simp [Reader.step, hc, Reader.advance, hquote, h, hblank]

theorem scan_escapeChar {c : Char} (hc : isXmlChar c = true) :
    (escapeChar c).foldlM Reader.step ⟨.data, stack, elements⟩ =
      some ⟨.data, stack, elements⟩ := by
  unfold escapeChar
  split
  · rfl
  · rfl
  · rfl
  · rename_i hamp hlt hgt
    rw [List.foldlM_cons, step_data hc ⟨hlt, hamp, hgt⟩]
    rfl

/-- **Character data** stays character data. -/
theorem scans_escape {data : String} (h : Legible data) :
    Scans ⟨.data, stack, elements⟩ (escape data) ⟨.data, stack, elements⟩ := by
  rw [Scans, escape, String.toList_ofList]
  have hplace := @scans_chars escapeChar (fun _ => ⟨.data, stack, elements⟩) data.toList []
    fun c hc _ => scan_escapeChar (h.char hc)
  exact hplace

/-- A character of a value that is written between quotes of a kind. -/
theorem scan_escapeAttrChar {c quote : Char} {quoted : Bool} {tag : Tag}
    {name before : List Char} (hc : isXmlChar c = true)
    (hquote : quoted = true ∧ quote = '"' ∨ quoted = false ∧ quote = '\'' ∧ c ≠ '\'') :
    (escapeAttrChar quoted c).foldlM Reader.step
        ⟨.value tag name quote before, stack, elements⟩ =
      some ⟨.value tag name quote (before ++ [c]), stack, elements⟩ := by
  rcases hquote with ⟨rfl, rfl⟩ | ⟨rfl, rfl, hne⟩
  · unfold escapeAttrChar
    split
    · rfl
    · rfl
    · rfl
    · rfl
    · rename_i hnl hcr htab hdouble
      unfold escapeChar
      split
      · rfl
      · rfl
      · rfl
      · rename_i hamp hlt hgt
        rw [List.foldlM_cons, step_value hc hdouble ⟨hlt, hamp⟩ ⟨htab, hnl, hcr⟩]
        rfl
  · unfold escapeAttrChar
    split
    · rfl
    · rfl
    · rfl
    · rfl
    · rename_i hnl hcr htab hdouble
      unfold escapeChar
      split
      · rfl
      · rfl
      · rfl
      · rename_i hamp hlt hgt
        rw [List.foldlM_cons, step_value hc hne ⟨hlt, hamp⟩ ⟨htab, hnl, hcr⟩]
        rfl

/-- **A quoted value** is read back as it was written. -/
theorem scans_quoteattr {data : String} (h : Legible data) (tag : Tag) (name : String) :
    Scans ⟨.assigned tag name.toList, stack, elements⟩ (quoteattr data)
      ⟨.valued { tag with attrib := tag.attrib ++ [(name, data)] }, stack, elements⟩ := by
  have hbody : ∀ quoted quote, (∀ c ∈ data.toList,
      quoted = true ∧ quote = '"' ∨ quoted = false ∧ quote = '\'' ∧ c ≠ '\'') →
      Scans ⟨.value tag name.toList quote [], stack, elements⟩
        (String.ofList (data.toList.flatMap (escapeAttrChar quoted)))
        ⟨.value tag name.toList quote data.toList, stack, elements⟩ := by
    intro quoted quote hquote
    rw [Scans, String.toList_ofList]
    exact @scans_chars (escapeAttrChar quoted)
      (fun read => ⟨.value tag name.toList quote read, stack, elements⟩) data.toList []
      fun c hc before => scan_escapeAttrChar (h.char hc) (hquote c hc)
  unfold quoteattr
  split
  · rename_i hq
    have hopen : Scans ⟨.assigned tag name.toList, stack, elements⟩ "'"
        ⟨.value tag name.toList '\'' [], stack, elements⟩ := rfl
    have hclose : Scans ⟨.value tag name.toList '\'' data.toList, stack, elements⟩ "'"
        ⟨.valued { tag with attrib := tag.attrib ++
          [(String.ofList name.toList, String.ofList data.toList)] }, stack, elements⟩ := rfl
    rw [String.ofList_toList, String.ofList_toList] at hclose
    refine (hopen.append (hbody false '\'' fun c hc => .inr ⟨rfl, rfl, ?_⟩)).append hclose
    rintro rfl
    exact hq.2 hc
  · have hopen : Scans ⟨.assigned tag name.toList, stack, elements⟩ "\""
        ⟨.value tag name.toList '"' [], stack, elements⟩ := rfl
    have hclose : Scans ⟨.value tag name.toList '"' data.toList, stack, elements⟩ "\""
        ⟨.valued { tag with attrib := tag.attrib ++
          [(String.ofList name.toList, String.ofList data.toList)] }, stack, elements⟩ := rfl
    rw [String.ofList_toList, String.ofList_toList] at hclose
    exact (hopen.append (hbody true '"' fun c hc => .inl ⟨rfl, rfl⟩)).append hclose

/-- The attribute that carries an id. -/
theorem scans_messageIdAttr {messageId : String} (h : IsHex messageId) {tag : Tag}
    (hname : Scans ⟨.valued tag, stack, elements⟩ " message_id="
      ⟨.assigned tag "message_id".toList, stack, elements⟩) :
    Scans ⟨.valued tag, stack, elements⟩ (messageIdAttr messageId)
      ⟨.valued { tag with attrib := tag.attrib ++ [("message_id", messageId)] }, stack,
        elements⟩ := by
  have hne : messageId ≠ "" := by
    rintro rfl
    exact absurd h.1 (by decide)
  rw [messageIdAttr, if_neg hne]
  exact hname.append (scans_quoteattr (legible_hex h) tag "message_id")

/-! ## envelopes -/

/-- A message as it was accepted: an envelope of its own parts, and a new id. -/
structure Sent (message : QueuedTeammateMessage) : Prop where
  messageId : IsHex message.messageId
  xml : message.xml = match message.kind with
    | .teammate => formatTeammateMessage message.fromAid message.summary message.content
        message.messageId
    | .stopNotice => noticeXml message.fromAid message.fromRole message.messageId message.content

/-- A document can hold what is written in the envelopes of the message. -/
def QueuedTeammateMessage.Plain (message : QueuedTeammateMessage) : Prop :=
  match message.kind with
  | .teammate => Legible message.summary ∧ Legible message.content ∧ Legible message.sentAt
  | .stopNotice => Legible message.fromRole ∧ Legible message.content

instance (message : QueuedTeammateMessage) : Decidable message.Plain := by
  unfold QueuedTeammateMessage.Plain
  cases message.kind <;> exact inferInstance

/-- The attributes of the envelope a message was accepted in. -/
def envelopeAttributes (message : QueuedTeammateMessage) : Attributes :=
  match message.kind with
  | .teammate => [("teammate_id", agentName message.fromAid), ("summary", message.summary),
      ("message_id", message.messageId)]
  | .stopNotice => [("about", agentName message.fromAid), ("role", message.fromRole),
      ("message_id", message.messageId)]

/-- Those of its envelope in a batch. -/
def batchAttributes (message : QueuedTeammateMessage) : Attributes :=
  match message.kind with
  | .teammate => [("teammate_id", agentName message.fromAid), ("summary", message.summary),
      ("sent_at", message.sentAt), ("message_id", message.messageId)]
  | .stopNotice => envelopeAttributes message

variable {message : QueuedTeammateMessage} {batch : List QueuedTeammateMessage}

/-- Where an element may begin: before the root, or in another element. -/
def Outside (s : Reader) : Prop := s.mode = .start ∧ s.stack = [] ∨ s.mode = .data ∧ s.stack ≠ []

/-- Behind an element that began there. -/
def behind (s : Reader) (more : List Attributes) : Reader where
  mode := if s.stack.isEmpty then .done else .data
  stack := s.stack
  elements := s.elements ++ more

/-- The text of an element takes the reader behind it. -/
def Element (text : String) (attrib : Attributes) : Prop :=
  ∀ s : Reader, Outside s → Scans s text (behind s [attrib])

/-- A start tag begins in the same way before the root and in another element. -/
theorem scans_open {s : Reader} (hs : Outside s) {text : String} {mode : Mode}
    (hroot : Scans ⟨.start, [], s.elements⟩ text ⟨mode, [], s.elements⟩)
    (hinner : Scans ⟨.data, s.stack, s.elements⟩ text ⟨mode, s.stack, s.elements⟩) :
    Scans s text ⟨mode, s.stack, s.elements⟩ := by
  obtain ⟨_, stack, elements⟩ := s
  rcases hs with ⟨rfl, rfl⟩ | ⟨rfl, -⟩
  · exact hroot
  · exact hinner

/-- **A stop notice** is an element with its attributes. -/
theorem element_notice (fromAid : Nat) {role messageId content : String}
    (hid : IsHex messageId) (hrole : Legible role) (hcontent : Legible content) :
    Element (noticeXml fromAid role messageId content)
      [("about", agentName fromAid), ("role", role), ("message_id", messageId)] := by
  intro s hs
  have hopen : Scans s "<team-notice about="
      ⟨.assigned ⟨"team-notice".toList, []⟩ "about".toList, s.stack, s.elements⟩ :=
    scans_open hs rfl rfl
  have habout := hopen.append (scans_quoteattr (legible_agentName fromAid) _ _)
  have hnamed := (habout.append (b := " role=") rfl).append (scans_quoteattr hrole _ "role")
  have htag := (hnamed.append (b := " message_id=") rfl).append
    (scans_quoteattr (legible_hex hid) _ "message_id")
  have hdata := (htag.append (b := ">\n") rfl).append (scans_escape hcontent)
  exact hdata.append (b := "\n</team-notice>") rfl

/-- What a teammate message begins with. -/
theorem scans_teammate {s : Reader} (hs : Outside s) (fromAid : Nat) {summary : String}
    (hsummary : Legible summary) :
    Scans s ("<teammate-message teammate_id=" ++ quoteattr (agentName fromAid) ++ " summary=" ++
        quoteattr summary)
      ⟨.valued ⟨"teammate-message".toList,
        [("teammate_id", agentName fromAid), ("summary", summary)]⟩, s.stack, s.elements⟩ := by
  have hopen : Scans s "<teammate-message teammate_id="
      ⟨.assigned ⟨"teammate-message".toList, []⟩ "teammate_id".toList, s.stack, s.elements⟩ :=
    scans_open hs rfl rfl
  have hfrom := hopen.append (scans_quoteattr (legible_agentName fromAid) _ _)
  exact (hfrom.append (b := " summary=") rfl).append (scans_quoteattr hsummary _ "summary")

/-- And what it ends with. -/
theorem scans_teammateContent (attrib : Attributes) {content : String} (h : Legible content) :
    Scans ⟨.valued ⟨"teammate-message".toList, attrib⟩, stack, elements⟩
      (">\n" ++ escape content ++ "\n</teammate-message>")
      (behind ⟨.data, stack, elements⟩ [attrib]) := by
  have hdata : Scans ⟨.valued ⟨"teammate-message".toList, attrib⟩, stack, elements⟩ ">\n"
      ⟨.data, "teammate-message".toList :: stack, elements ++ [attrib]⟩ := rfl
  exact (hdata.append (scans_escape h)).append (b := "\n</teammate-message>") rfl

/-- **The envelope a message was accepted in** is an element with its attributes. -/
theorem element_xml (h : Sent message) (hplain : message.Plain) :
    Element message.xml (envelopeAttributes message) := by
  have hxml := h.xml
  unfold QueuedTeammateMessage.Plain at hplain
  unfold envelopeAttributes
  cases hkind : message.kind with
  | teammate =>
      rw [hkind] at hxml hplain
      dsimp only at hxml hplain ⊢
      intro s hs
      have htag := (scans_teammate hs message.fromAid hplain.1).append
        (scans_messageIdAttr h.messageId rfl)
      have hall := htag.append (scans_teammateContent _ hplain.2.1)
      unfold formatTeammateMessage at hxml
      simp only [hxml, String.append_assoc] at hall ⊢
      exact hall
  | stopNotice =>
      rw [hkind] at hxml hplain
      dsimp only at hxml hplain
      rw [hxml]
      exact element_notice message.fromAid h.messageId hplain.1 hplain.2

/-- **The envelope of a message in a batch** is an element with its attributes. -/
theorem element_batchEnvelope (h : Sent message) (hplain : message.Plain) :
    Element (batchEnvelope message) (batchAttributes message) := by
  unfold batchEnvelope batchAttributes
  cases hkind : message.kind with
  | teammate =>
      unfold QueuedTeammateMessage.Plain at hplain
      rw [hkind] at hplain
      dsimp only at hplain ⊢
      intro s hs
      have hsent := ((scans_teammate hs message.fromAid hplain.1).append (b := " sent_at=")
        rfl).append (scans_quoteattr hplain.2.2 _ "sent_at")
      have htag := hsent.append (scans_messageIdAttr h.messageId rfl)
      have hall := htag.append (scans_teammateContent _ hplain.2.1)
      simp only [String.append_assoc] at hall ⊢
      exact hall
  | stopNotice => exact element_xml h hplain

/-- The lines of a batch, in the content of its element. -/
theorem scans_joinLines {name : List Char} (h : ∀ m ∈ batch, Sent m ∧ m.Plain) :
    Scans ⟨.data, [name], elements⟩ (joinLines (batch.map batchEnvelope))
      ⟨.data, [name], elements ++ batch.map batchAttributes⟩ := by
  induction batch generalizing elements with
  | nil =>
      rw [List.map_nil, List.map_nil, List.append_nil]
      rfl
  | cons m batch ih =>
      rw [List.forall_mem_cons] at h
      have hinside : Outside ⟨.data, [name], elements⟩ := .inr ⟨rfl, List.cons_ne_nil _ _⟩
      have hfirst := element_batchEnvelope h.1.1 h.1.2 _ hinside
      cases batch with
      | nil => exact hfirst
      | cons n batch =>
          have hrest := @ih (elements ++ [batchAttributes m]) h.2
          rw [List.append_assoc] at hrest
          exact (hfirst.append (b := "\n") rfl).append hrest

/-- The number of messages, as a value. -/
theorem scans_count (tag : Tag) (name : List Char) (n : Nat) :
    Scans ⟨.value tag name '"' [], stack, elements⟩ (toString n)
      ⟨.value tag name '"' (toString n).toList, stack, elements⟩ := by
  have hdigit : ∀ c ∈ (toString n).toList, ∀ before,
      ([c] : List Char).foldlM Reader.step ⟨.value tag name '"' before, stack, elements⟩ =
        some ⟨.value tag name '"' (before ++ [c]), stack, elements⟩ := by
    intro c hc before
    have hdig := mem_toString hc
    have hne : ∀ d : Char, d.isDigit = false → c ≠ d := by
      rintro d hd rfl
      rw [hdig] at hd
      contradiction
    rw [List.foldlM_cons, step_value (isXmlChar_of_isDigit hdig) (hne '"' rfl)
      ⟨hne '<' rfl, hne '&' rfl⟩ ⟨hne '\t' rfl, hne '\n' rfl, hne '\r' rfl⟩]
    rfl
  have hall := @scans_chars (fun c => [c])
    (fun read => ⟨.value tag name '"' read, stack, elements⟩) (toString n).toList [] hdigit
  rw [List.flatMap_singleton'] at hall
  exact hall

/-! ## deliveries -/

/-- The attributes that a delivery is read as. -/
def deliveryAttributes : List QueuedTeammateMessage → List Attributes
  | [message] => [envelopeAttributes message]
  | messages => [("count", toString messages.length)] :: messages.map batchAttributes

/-- **A batch** is a document. -/
theorem read_batch (h : ∀ m ∈ batch, Sent m ∧ m.Plain) :
    read (formatTeammateMessageBatch batch) =
      some ([("count", toString batch.length)] :: batch.map batchAttributes) := by
  have hopen : Scans {} "<teammate-messages count=\""
      ⟨.value ⟨"teammate-messages".toList, []⟩ "count".toList '"' [], [], []⟩ := rfl
  have hcount := hopen.append (scans_count _ _ batch.length)
  have hclose : Scans ⟨.value ⟨"teammate-messages".toList, []⟩ "count".toList '"'
      (toString batch.length).toList, [], []⟩ "\">\n"
      ⟨.data, ["teammate-messages".toList],
        [[("count", String.ofList (toString batch.length).toList)]]⟩ := rfl
  rw [String.ofList_toList] at hclose
  exact read_of_scans
    (((hcount.append hclose).append (scans_joinLines h)).append (b := "\n</teammate-messages>") rfl)

/-- **A delivery is read** as the attributes of its envelopes, by every parser. -/
theorem attribs_delivery (et : ElementTree) (h : ∀ m ∈ batch, Sent m ∧ m.Plain) :
    et.attribs (deliveryText batch) = some (deliveryAttributes batch) := by
  refine et.reads _ _ ?_
  cases batch with
  | nil => exact read_batch h
  | cons m rest =>
      cases rest with
      | nil =>
          have hm := h m (List.mem_singleton.mpr rfl)
          exact read_of_scans (element_xml hm.1 hm.2 {} (.inl ⟨rfl, rfl⟩))
      | cons n rest => exact read_batch h

/-- The `message_id` of an element, where it has one that is not empty. -/
def messageIdOf (attrib : Attributes) : Option String :=
  (attrib.lookup "message_id").filter (· ≠ "")

/-- The ids in a text of the history: none where it is no document. -/
def messageIdsInXml (et : ElementTree) (text : String) : List String :=
  ((et.attribs text).getD []).filterMap messageIdOf

theorem messageIdOf_envelope (h : Sent message) :
    messageIdOf (envelopeAttributes message) = some message.messageId ∧
      messageIdOf (batchAttributes message) = some message.messageId := by
  have hne : message.messageId ≠ "" := by
    intro heq
    have hlength := h.messageId.1
    rw [heq] at hlength
    contradiction
  have hfilter : (some message.messageId).filter (· ≠ "") = some message.messageId := by
    rw [Option.filter_some, if_pos (decide_eq_true hne)]
  unfold batchAttributes envelopeAttributes
  cases message.kind with
  | teammate => exact ⟨hfilter, hfilter⟩
  | stopNotice => exact ⟨hfilter, hfilter⟩

/-- **A delivery gives the ids of its messages back.** -/
theorem messageIdsInXml_delivery (et : ElementTree) (h : ∀ m ∈ batch, Sent m ∧ m.Plain) :
    messageIdsInXml et (deliveryText batch) = batch.map QueuedTeammateMessage.messageId := by
  rw [messageIdsInXml, attribs_delivery et h, Option.getD_some]
  have hbatch : (batch.map batchAttributes).filterMap messageIdOf =
      batch.map QueuedTeammateMessage.messageId := by
    rw [List.filterMap_map, ← List.filterMap_eq_map]
    exact List.filterMap_congr fun m hm => (messageIdOf_envelope (h m hm).1).2
  unfold deliveryAttributes
  split
  · rename_i m
    have hm := messageIdOf_envelope (h m (List.mem_singleton.mpr rfl)).1
    rw [List.filterMap_cons_some hm.1]
    rfl
  · rw [List.filterMap_cons_none rfl, hbatch]

/-- A text that no document can be names no message. -/
theorem messageIdsInXml_illegible (et : ElementTree) {text : String} (h : ¬ Legible text) :
    messageIdsInXml et text = [] := by
  unfold messageIdsInXml
  cases hread : et.attribs text with
  | none => rfl
  | some elements => exact absurd (et.legible text elements hread) h

end OpenCollab
