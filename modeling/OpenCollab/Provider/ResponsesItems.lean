import OpenCollab.Provider.ResponsesReceived

/-!
# OpenCollab.Provider.ResponsesItems

Output items that say the same, field by field: the same call with arguments that read
alike, the same message part by part, the same reasoning; a phase or an encrypted
content may stand on one side only.

* `means_of_semantic` — what the meaning of an item says of its fields;
* `sameItem_of_agree` — items that `_output_items_agree` accepts say the same.
-/

namespace OpenCollab.Responses

open List (Forall₂)

variable {c : Codec} {streamed terminal : Json}

/-! ## items that say the same -/

/-- A value that may be filled in late. -/
def LateAgree (a b : Json) : Prop := a = .null ∨ b = .null ∨ a = b

/-- Both values are this text, which is not empty. -/
def SameName (a b : Json) : Prop := ∃ text ≠ "", a = .str text ∧ b = .str text

/-- Two texts of arguments, read as JSON, are written alike. -/
def SameArguments (c : Codec) (a b : Json) : Prop :=
  ∃ text text' value value', a = .str text ∧ b = .str text' ∧
    c.jsonLoads text = .value value ∧ c.jsonLoads text' = .value value' ∧
    c.jsonDumps value = c.jsonDumps value'

/-- Two parts of a message: the same output text, or the same refusal. -/
def SamePart (a b : Json) : Prop :=
  ∃ text, (a.get "type" = .str "output_text" ∧ b.get "type" = .str "output_text" ∧
      a.get "text" = .str text ∧ b.get "text" = .str text) ∨
    (a.get "type" = .str "refusal" ∧ b.get "type" = .str "refusal" ∧
      a.get "refusal" = .str text ∧ b.get "refusal" = .str text)

/-- Two parts of a reasoning or of its summary: the same type and text. -/
def SameThought (a b : Json) : Prop :=
  a.get "type" = b.get "type" ∧ ∃ text, a.get "text" = .str text ∧ b.get "text" = .str text

/-- The parts of two items correspond one by one. -/
def SameParts (R : Json → Json → Prop) (a b : Json) : Prop :=
  ∃ parts parts', elements a = .ok parts ∧ elements b = .ok parts' ∧ Forall₂ R parts parts'

/-- **Two items say the same**: the same call, message or reasoning. -/
inductive SameItem (c : Codec) (streamed terminal : Json) : Prop
  | call (htype : streamed.get "type" = .str "function_call" ∧
        terminal.get "type" = .str "function_call")
      (hcallId : SameName (streamed.get "call_id") (terminal.get "call_id"))
      (hname : SameName (streamed.get "name") (terminal.get "name"))
      (harguments : SameArguments c (streamed.get "arguments") (terminal.get "arguments"))
  | message (htype : streamed.get "type" = .str "message" ∧ terminal.get "type" = .str "message")
      (hrole : SameName (streamed.get "role") (terminal.get "role"))
      (hcontent : SameParts SamePart (streamed.get "content") (terminal.get "content"))
      (hphase : LateAgree (streamed.get "phase") (terminal.get "phase"))
  | reasoning (htype : streamed.get "type" = .str "reasoning" ∧
        terminal.get "type" = .str "reasoning")
      (hcontent : SameParts SameThought (streamed.get "content") (terminal.get "content"))
      (hsummary : SameParts SameThought (streamed.get "summary") (terminal.get "summary"))
      (hencrypted : LateAgree (streamed.get "encrypted_content")
        (terminal.get "encrypted_content"))

/-- Lists that are read alike correspond one by one. -/
theorem forall₂_of_mapM {α β : Type} {ε : Type} {f : α → Except ε β} {R : α → α → Prop}
    (hR : ∀ x y b, f x = .ok b → f y = .ok b → R x y) {xs ys : List α} {zs : List β}
    (hx : xs.mapM f = .ok zs) (hy : ys.mapM f = .ok zs) : Forall₂ R xs ys := by
  rw [Lib.mapM_eq_ok] at hx hy
  induction hx generalizing ys with
  | nil =>
      cases hy
      exact .nil
  | cons hhead htail ih =>
      cases hy with
      | cons hhead' htail' => exact .cons (hR _ _ _ hhead hhead') (ih htail')

/-! ## the meaning of an item -/

/-- What the meaning of an item says of its fields. -/
inductive Means (c : Codec) (item : Json) : Meaning → Prop
  | call {callId name : String} (htype : item.get "type" = .str "function_call")
      (hcallId : callId ≠ "" ∧ item.get "call_id" = .str callId)
      (hname : name ≠ "" ∧ item.get "name" = .str name) {text : String} {value : Json}
      (harguments : item.get "arguments" = .str text) (hvalue : c.jsonLoads text = .value value) :
      Means c item (.functionCall callId name (c.jsonDumps value))
  | message {role : String} {parts : List (String × String)}
      (htype : item.get "type" = .str "message")
      (hrole : role ≠ "" ∧ item.get "role" = .str role) {content : List Json}
      (hcontent : elements (item.get "content") = .ok content)
      (hparts : content.mapM messagePart = .ok parts) : Means c item (.message role parts)
  | reasoning {summaries : List (Json × String)} {texts : List String}
      (htype : item.get "type" = .str "reasoning") {content summary : List Json}
      (hcontent : elements (item.get "content") = .ok content)
      (htexts : content.mapM reasoningPart = .ok texts)
      (hsummary : elements (item.get "summary") = .ok summary)
      (hsummaries : summary.mapM summaryPart = .ok summaries) :
      Means c item (.reasoning summaries texts)

theorem eq_of_nonEmptyText {value : Json} {text : String} (h : nonEmptyText value = some text) :
    text ≠ "" ∧ value = .str text := by
  obtain ⟨htext, hne⟩ := Option.filter_eq_some_iff.mp h
  exact ⟨of_decide_eq_true hne, eq_str_of_asStr? htext⟩

/-- **The meaning of an item** is read off its fields. -/
theorem means_of_semantic {item : Json} {meaning : Meaning}
    (h : semanticOutputItem c item = .ok meaning) : Means c item meaning := by
  unfold semanticOutputItem at h
  split at h
  · rename_i htype
    obtain ⟨identity, hidentity, h⟩ := Lib.bind_eq_ok.mp h
    rw [← Except.ok.inj h]
    unfold functionCallIdentity at hidentity
    split at hidentity
    · rename_i callId hcallId
      split at hidentity
      · rename_i name hname
        split at hidentity
        · rename_i text htext
          split at hidentity
          · rename_i value hvalue
            rw [← Except.ok.inj hidentity]
            exact .call (of_decide_eq_true htype) (eq_of_nonEmptyText hcallId)
              (eq_of_nonEmptyText hname) (eq_str_of_asStr? htext) hvalue
          · cases hidentity
          · cases hidentity
        · cases hidentity
      · cases hidentity
    · cases hidentity
  · split at h
    · rename_i htype
      split at h
      · rename_i role hrole
        obtain ⟨_, -, h⟩ := Lib.bind_eq_ok.mp h
        obtain ⟨content, hcontent, h⟩ := Lib.bind_eq_ok.mp h
        obtain ⟨parts, hparts, h⟩ := Lib.bind_eq_ok.mp h
        rw [← Except.ok.inj h]
        exact .message (of_decide_eq_true htype) (eq_of_nonEmptyText hrole) hcontent hparts
      · cases h
    · split at h
      · rename_i htype
        obtain ⟨content, hcontent, h⟩ := Lib.bind_eq_ok.mp h
        obtain ⟨texts, htexts, h⟩ := Lib.bind_eq_ok.mp h
        obtain ⟨summary, hsummary, h⟩ := Lib.bind_eq_ok.mp h
        obtain ⟨summaries, hsummaries, h⟩ := Lib.bind_eq_ok.mp h
        rw [← Except.ok.inj h]
        exact .reasoning (of_decide_eq_true htype) hcontent htexts hsummary hsummaries
      · cases h

/-! ## parts -/

/-- A part of a message shows one text. -/
theorem messagePart_eq_ok {part : Json} {kind text : String}
    (h : messagePart part = .ok (kind, text)) :
    (kind = "output_text" ∧ part.get "type" = .str "output_text" ∧ part.get "text" = .str text) ∨
      (kind = "refusal" ∧ part.get "type" = .str "refusal" ∧
        part.get "refusal" = .str text) := by
  unfold messagePart at h
  split at h
  · rename_i pair hpair
    rw [Except.ok.inj h] at hpair
    unfold partText at hpair
    split at hpair
    · rename_i htype
      obtain ⟨t, ht, heq⟩ := Option.map_eq_some_iff.mp hpair
      obtain ⟨rfl, rfl⟩ := Prod.mk.inj heq
      exact .inl ⟨rfl, htype, eq_str_of_asStr? ht⟩
    · rename_i htype
      obtain ⟨t, ht, heq⟩ := Option.map_eq_some_iff.mp hpair
      obtain ⟨rfl, rfl⟩ := Prod.mk.inj heq
      exact .inr ⟨rfl, htype, eq_str_of_asStr? ht⟩
    · cases hpair
  · cases h

theorem samePart_of_messagePart {a b : Json} {part : String × String}
    (ha : messagePart a = .ok part) (hb : messagePart b = .ok part) : SamePart a b := by
  obtain ⟨kind, text⟩ := part
  rcases messagePart_eq_ok ha with ⟨rfl, hta, hxa⟩ | ⟨rfl, hta, hxa⟩
  · rcases messagePart_eq_ok hb with ⟨-, htb, hxb⟩ | ⟨hkind, -⟩
    · exact ⟨text, .inl ⟨hta, htb, hxa, hxb⟩⟩
    · exact absurd hkind (by decide)
  · rcases messagePart_eq_ok hb with ⟨hkind, -⟩ | ⟨-, htb, hxb⟩
    · exact absurd hkind (by decide)
    · exact ⟨text, .inr ⟨hta, htb, hxa, hxb⟩⟩

theorem reasoningPart_eq_ok {part : Json} {text : String} (h : reasoningPart part = .ok text) :
    part.get "type" = .str "reasoning_text" ∧ part.get "text" = .str text := by
  unfold reasoningPart at h
  split at h
  · rename_i heq
    obtain ⟨htype, htext⟩ := Prod.mk.inj heq
    rw [Except.ok.inj h] at htext
    exact ⟨htype, eq_str_of_asStr? htext⟩
  · cases h

theorem sameThought_of_reasoningPart {a b : Json} {text : String}
    (ha : reasoningPart a = .ok text) (hb : reasoningPart b = .ok text) : SameThought a b := by
  obtain ⟨hta, hxa⟩ := reasoningPart_eq_ok ha
  obtain ⟨htb, hxb⟩ := reasoningPart_eq_ok hb
  exact ⟨hta.trans htb.symm, text, hxa, hxb⟩

theorem summaryPart_eq_ok {part type : Json} {text : String}
    (h : summaryPart part = .ok (type, text)) :
    part.get "type" = type ∧ part.get "text" = .str text := by
  unfold summaryPart at h
  split at h
  · rename_i htext
    obtain ⟨htype, rfl⟩ := Prod.mk.inj (Except.ok.inj h)
    exact ⟨htype, eq_str_of_asStr? htext⟩
  · cases h

theorem sameThought_of_summaryPart {a b : Json} {part : Json × String}
    (ha : summaryPart a = .ok part) (hb : summaryPart b = .ok part) : SameThought a b := by
  obtain ⟨hta, hxa⟩ := summaryPart_eq_ok ha
  obtain ⟨htb, hxb⟩ := summaryPart_eq_ok hb
  exact ⟨hta.trans htb.symm, part.2, hxa, hxb⟩

/-! ## agreement -/

/-- The late field of items that agree. -/
theorem late_of_agree {field : String} (h : outputItemsAgree c streamed terminal = .ok true)
    (hlate : lateField streamed = some field) :
    LateAgree (streamed.get field) (terminal.get field) := by
  unfold outputItemsAgree at h
  obtain ⟨meaning, -, h⟩ := Lib.bind_eq_ok.mp h
  obtain ⟨meaning', -, h⟩ := Lib.bind_eq_ok.mp h
  split at h
  · cases h
  · rw [hlate] at h
    dsimp only at h
    split at h
    · cases h
    · have hlast := Except.ok.inj h
      rw [Bool.or_eq_true, Bool.or_eq_true, decide_eq_true_eq, decide_eq_true_eq,
        decide_eq_true_eq] at hlast
      rcases hlast with (hnone | hnone) | hsame
      · exact .inl hnone
      · exact .inr (.inl hnone)
      · exact .inr (.inr hsame)

/-- **Items that `_output_items_agree` accepts say the same.** -/
theorem sameItem_of_agree (h : outputItemsAgree c streamed terminal = .ok true) :
    SameItem c streamed terminal := by
  have hlate := fun field => @late_of_agree c streamed terminal field h
  unfold outputItemsAgree at h
  obtain ⟨meaning, hstreamed, h⟩ := Lib.bind_eq_ok.mp h
  obtain ⟨meaning', hterminal, h⟩ := Lib.bind_eq_ok.mp h
  split at h
  · cases h
  rename_i hsame
  rw [← not_not.mp hsame] at hterminal
  have hmeans := means_of_semantic hterminal
  cases means_of_semantic hstreamed with
  | call htype hcallId hname harguments hvalue =>
      generalize hdump : Meaning.functionCall _ _ _ = meaning at hmeans
      cases hmeans with
      | call htype' hcallId' hname' harguments' hvalue' =>
          obtain ⟨rfl, rfl, hdumps⟩ := Meaning.functionCall.inj hdump
          exact .call ⟨htype, htype'⟩ ⟨_, hcallId.1, hcallId.2, hcallId'.2⟩
            ⟨_, hname.1, hname.2, hname'.2⟩
            ⟨_, _, _, _, harguments, harguments', hvalue, hvalue', hdumps⟩
      | message | reasoning => cases hdump
  | message htype hrole hcontent hparts =>
      cases hmeans with
      | message htype' hrole' hcontent' hparts' =>
          refine .message ⟨htype, htype'⟩ ⟨_, hrole.1, hrole.2, hrole'.2⟩
            ⟨_, _, hcontent, hcontent', ?_⟩ (hlate "phase" ?_)
          · exact forall₂_of_mapM (fun _ _ _ => samePart_of_messagePart) hparts hparts'
          · have hmessage : hasType streamed "message" = true := decide_eq_true htype
            rw [lateField, if_pos hmessage]
  | reasoning htype hcontent htexts hsummary hsummaries =>
      cases hmeans with
      | reasoning htype' hcontent' htexts' hsummary' hsummaries' =>
          refine .reasoning ⟨htype, htype'⟩ ⟨_, _, hcontent, hcontent', ?_⟩
            ⟨_, _, hsummary, hsummary', ?_⟩ (hlate "encrypted_content" ?_)
          · exact forall₂_of_mapM (fun _ _ _ => sameThought_of_reasoningPart) htexts htexts'
          · exact forall₂_of_mapM (fun _ _ _ => sameThought_of_summaryPart) hsummaries hsummaries'
          · have hmessage : hasType streamed "message" = false := by
              rw [hasType, htype]
              decide
            have hreasoning : hasType streamed "reasoning" = true := decide_eq_true htype
            rw [lateField, hmessage, if_neg Bool.false_ne_true, if_pos hreasoning]

end OpenCollab.Responses
