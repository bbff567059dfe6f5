import OpenCollab.Lib.Windows
import OpenCollab.Provider.Markdown

/-!
# OpenCollab.Provider.Markup

Tool calls that a model wrote as markup into its text
(`adapters/llm/_chat_response.py`).  A section of calls counts only outside of
Markdown quotations, so it is located in a copy of the text in which every quoted
character is a space, and then read from the text itself.

* `occurs_unquotedMarkupText` — a marker is found in the copy where it stands plain: outside of
  every fence, indented line, block quote and code span;
* `matchCall_spec`, `splitCalls_spec` — one call block, and the blocks of a section;
* `readCalls_eq_some`, `readCalls_eq_error` — the calls of a section whose every block
  is sound, and the section at which the loop raises;
* `sound_iff` — what is extracted from any text.

A text is the list of its characters.  The two regular expressions are matchers by
hand, in the order in which the engine backtracks.
-/

namespace OpenCollab.Markup

open Lib Chat Markdown

/-! ## markers -/

def sectionBegin : List Char := "<|tool_calls_section_begin|>".toList
def sectionEnd : List Char := "<|tool_calls_section_end|>".toList
def callBegin : List Char := "<|tool_call_begin|>".toList
def callEnd : List Char := "<|tool_call_end|>".toList
def argBegin : List Char := "<|tool_call_argument_begin|>".toList

/-! ## call blocks -/

/-- What follows a prefix. -/
def stripPrefix (start text : List Char) : Option (List Char) :=
  if start.isPrefixOf text then some (text.drop start.length) else none

/-- `[^:\s]`. -/
def isNameChar (c : Char) : Bool := c ≠ ':' && !isSpaceChar c

/-- `\S+?\s*` up to the argument marker: the shortest id it follows, and the text
behind the marker.  A longer id would only leave less of the text. -/
def findId : List Char → Option (List Char × List Char)
  | [] => none
  | c :: rest =>
      if isSpaceChar c then none
      else match stripPrefix argBegin (rest.dropWhile isSpaceChar) with
        | some text => some ([c], text)
        | none => (findId rest).map fun found => (c :: found.1, found.2)

/-- `.*?` up to a marker: what stands in front of its first occurrence, and behind. -/
def findMarker (marker : List Char) : List Char → Option (List Char × List Char)
  | [] => none
  | c :: rest =>
      match stripPrefix marker (c :: rest) with
      | some text => some ([], text)
      | none => (findMarker marker rest).map fun found => (c :: found.1, found.2)

/-- The groups of one match of `_MARKUP_CALL_RE`. -/
structure CallMatch where
  name : List Char
  id : List Char
  args : List Char
deriving DecidableEq, Repr

/-- `_MARKUP_CALL_RE` at the start of the text, and the text behind the match. -/
def matchCall (text : List Char) : Option (CallMatch × List Char) := do
  let text ← stripPrefix callBegin text
  let text ← stripPrefix "functions.".toList (text.dropWhile isSpaceChar)
  let name := text.takeWhile isNameChar
  if name = [] then none
  else
    let text ← stripPrefix [':'] (text.dropWhile isNameChar)
    let (id, text) ← findId text
    let (args, text) ← findMarker callEnd text
    return ({ name, id, args }, text)

/-- `_MARKUP_CALL_RE.finditer`, each match with the text between the match before
and it, and the text behind the last one; `skip` characters belong to a match. -/
def splitCalls : (skip : Nat) → (gap : List Char) → List Char →
    List (List Char × CallMatch) × List Char
  | _, gap, [] => ([], gap)
  | skip + 1, gap, _ :: rest => splitCalls skip gap rest
  | 0, gap, c :: rest =>
      match matchCall (c :: rest) with
      | some (call, after) =>
          let (more, tail) := splitCalls (rest.length - after.length) [] rest
          ((gap, call) :: more, tail)
      | none => splitCalls 0 (gap ++ [c]) rest

/-- `text.strip()`. -/
def stripChars (text : List Char) : List Char :=
  ((text.dropWhile isSpaceChar).reverse.dropWhile isSpaceChar).reverse

/-- The dict of a recovered call. -/
def CallMatch.toCall (call : CallMatch) : ToolCall where
  id := String.ofList call.id
  name := String.ofList call.name
  arguments := String.ofList (stripChars call.args)

/-- The loop over the matches; `none`: it returns early, without calls. -/
def readCalls (jsonLoads : String → JsonLoads) : (seenIds : List (List Char)) →
    List (List Char × CallMatch) → Except ProviderError (Option (List ToolCall))
  | _, [] => .ok (some [])
  | seenIds, (gap, call) :: more =>
      if !gap.all isSpaceChar then .ok none
      else match jsonLoads (String.ofList (stripChars call.args)) with
        | .recursionError => .error .recursionError
        | .valueError => .ok none
        | .value _ =>
            if seenIds.contains call.id then .ok none
            else (readCalls jsonLoads (call.id :: seenIds) more).map
              (·.map (call.toCall :: ·))

/-- Where the section stands in the masked copy: the starts of its two markers. -/
def locateSection (searchable : List Char) : Option (Nat × Nat) :=
  match occurrences sectionBegin searchable 0, occurrences sectionEnd searchable 0 with
  | [start], [_] =>
      ((occurrences sectionEnd searchable (start + sectionBegin.length)).head?).map (start, ·)
  | _, _ => none

/-- `_extract_markup_tool_calls`.  A marker does not overlap itself, so the
occurrences are what `str.count` counts. -/
def extractMarkupToolCalls (jsonLoads : String → JsonLoads) (content : String) :
    Except ProviderError (List ToolCall × Option String) :=
  let text := content.toList
  if occurrences sectionBegin text 0 = [] then .ok ([], some content)
  else match locateSection (unquotedMarkupText text) with
    | none => .ok ([], some content)
    | some (start, stop) =>
        let (blocks, tail) :=
          splitCalls 0 [] ((text.take stop).drop (start + sectionBegin.length))
        match readCalls jsonLoads [] blocks with
        | .error e => .error e
        | .ok none => .ok ([], some content)
        | .ok (some calls) =>
            if calls = [] || !tail.all isSpaceChar then .ok ([], some content)
            else .ok (calls, orNone (some (String.ofList
              (stripChars (text.take start ++ text.drop (stop + sectionEnd.length))))))

variable {content text : List Char} {start stop : Nat}

/-- A marker stands in the text, no character of it quoted. -/
def Plain (content marker : List Char) (start : Nat) : Prop :=
  Occurs marker content start ∧ ∀ i, start ≤ i → i < start + marker.length → ¬Markdown.Quoted content i

/-- **What is found in the copy stands plain in the text.** -/
theorem occurs_unquotedMarkupText {marker : List Char} (hmarker : ' ' ∉ marker) :
    Occurs marker (unquotedMarkupText content) start ↔ Plain content marker start := by
  have hchar : ∀ k c, marker[k]? = some c →
      ((unquotedMarkupText content)[start + k]? = some c ↔
        content[start + k]? = some c ∧ quoted content (start + k) = false) := by
    intro k c hk
    have hne : c ≠ ' ' := fun h => hmarker (h ▸ List.mem_of_getElem? hk)
    rw [unquotedMarkupText_eq]
    cases hc : content[start + k]? with
    | none => simp
    | some c' => cases hq : quoted content (start + k) <;> simp [Ne.symm hne]
  simp only [Plain, ← quoted_iff, Bool.not_eq_true]
  rw [occurs_iff_getElem?, occurs_iff_getElem?, length_unquotedMarkupText]
  constructor
  · intro ⟨hlen, h⟩
    refine ⟨⟨hlen, fun k hk => ?_⟩, fun i hlo hhi => ?_⟩
    · have hget := List.getElem?_eq_getElem hk
      rw [hget]
      exact ((hchar k _ hget).mp (by rw [h k hk, hget])).1
    · have hk : i - start < marker.length := by omega
      have hget := List.getElem?_eq_getElem hk
      have := ((hchar (i - start) _ hget).mp (by rw [h _ hk, hget])).2
      rwa [Nat.add_sub_cancel' hlo] at this
  · intro ⟨⟨hlen, h⟩, hplain⟩
    refine ⟨hlen, fun k hk => ?_⟩
    have hget := List.getElem?_eq_getElem hk
    rw [hget]
    refine (hchar k _ hget).mpr ⟨by rw [h k hk, hget], hplain _ (by omega) (by omega)⟩

/-! ## the section -/

/-- **The section that is found**: one plain marker at each end, and no other. -/
theorem locateSection_eq_some :
    locateSection (unquotedMarkupText content) = some (start, stop) ↔
      (Plain content sectionBegin start ∧ ∀ i, Plain content sectionBegin i → i = start) ∧
      (Plain content sectionEnd stop ∧ ∀ i, Plain content sectionEnd i → i = stop) ∧
      start + sectionBegin.length ≤ stop := by
  have hbegin : ' ' ∉ sectionBegin := by decide
  have hend : ' ' ∉ sectionEnd := by decide
  have hone : ∀ {marker : List Char} {at' : Nat}, ' ' ∉ marker →
      (occurrences marker (unquotedMarkupText content) 0 = [at'] ↔
        Plain content marker at' ∧ ∀ i, Plain content marker i → i = at') := by
    intro marker at' hmarker
    rw [occurrences_eq_singleton]
    simp only [occurs_unquotedMarkupText hmarker, Nat.zero_le, true_and, forall_const]
  have hfrom : ∀ {lo : Nat}, (∀ i, Plain content sectionEnd i → i = stop) →
      ((occurrences sectionEnd (unquotedMarkupText content) lo).head? = some stop ↔
        lo ≤ stop ∧ Plain content sectionEnd stop) := by
    intro lo honly
    constructor
    · intro h
      have hmem := mem_occurrences.mp (List.mem_of_mem_head? h)
      rw [occurs_unquotedMarkupText hend] at hmem
      exact hmem
    · intro ⟨hlo, hplain⟩
      have hsingle : occurrences sectionEnd (unquotedMarkupText content) lo = [stop] := by
        rw [occurrences_eq_singleton]
        simp only [occurs_unquotedMarkupText hend]
        exact ⟨hlo, hplain, fun i _ hi => honly i hi⟩
      rw [hsingle]
      rfl
  unfold locateSection
  constructor
  · intro h
    split at h
    · rename_i first last hfirst hlast
      obtain ⟨found, hfound, heq⟩ := Option.map_eq_some_iff.mp h
      obtain ⟨rfl, rfl⟩ := Prod.mk.inj heq
      obtain ⟨hplain, honly⟩ := (hone hend).mp hlast
      have hmem := mem_occurrences.mp (List.mem_of_mem_head? hfound)
      rw [occurs_unquotedMarkupText hend] at hmem
      obtain rfl := honly _ hmem.2
      exact ⟨(hone hbegin).mp hfirst, ⟨hplain, honly⟩, hmem.1⟩
    · contradiction
  · intro ⟨hfirst, hlast, hle⟩
    rw [(hone hbegin).mpr hfirst, (hone hend).mpr hlast]
    dsimp only
    rw [(hfrom hlast.2).mpr ⟨hle, hlast.1⟩]
    rfl

/-! ## blocks -/

/-- A complete call block. -/
structure IsBlock (block : List Char) (call : CallMatch) : Prop where
  name : call.name ≠ [] ∧ ∀ c ∈ call.name, isNameChar c = true
  id : call.id ≠ [] ∧ ∀ c ∈ call.id, isSpaceChar c = false
  text : ∃ before after : List Char, (∀ c ∈ before, isSpaceChar c = true) ∧
    (∀ c ∈ after, isSpaceChar c = true) ∧
    block = callBegin ++ before ++ "functions.".toList ++ call.name ++ [':'] ++ call.id ++ after ++
      argBegin ++ call.args ++ callEnd

/-- The text of a section, cut into blocks and what stands between them. -/
inductive Blocks : List Char → List (List Char × CallMatch) → List Char → Prop where
  | nil (tail : List Char) : Blocks tail [] tail
  | cons {gap block rest tail : List Char} {call : CallMatch} {more : List (List Char × CallMatch)}
      (h : IsBlock block call) (hmore : Blocks rest more tail) :
      Blocks (gap ++ block ++ rest) ((gap, call) :: more) tail

theorem stripPrefix_eq_some {first rest : List Char} :
    stripPrefix first text = some rest ↔ text = first ++ rest := by
  unfold stripPrefix
  constructor
  · intro h
    split at h
    · rename_i hprefix
      obtain ⟨more, hmore⟩ := List.isPrefixOf_iff_prefix.mp hprefix
      obtain rfl := Option.some.inj h
      rw [← hmore, List.drop_left]
    · contradiction
  · intro h
    rw [h, if_pos (List.isPrefixOf_iff_prefix.mpr (List.prefix_append _ _)), List.drop_left]

theorem findId_spec {id rest : List Char} (h : findId text = some (id, rest)) :
    (id ≠ [] ∧ ∀ c ∈ id, isSpaceChar c = false) ∧
      ∃ after : List Char, (∀ c ∈ after, isSpaceChar c = true) ∧
        text = id ++ after ++ argBegin ++ rest := by
  induction text generalizing id with
  | nil => contradiction
  | cons c text ih =>
      rw [findId] at h
      split at h
      · contradiction
      · rename_i hspace
        rw [Bool.not_eq_true] at hspace
        split at h
        · rename_i found hfound
          obtain ⟨rfl, rfl⟩ := Prod.mk.inj (Option.some.inj h)
          have htext := stripPrefix_eq_some.mp hfound
          refine ⟨⟨by simp, by simpa using hspace⟩, text.takeWhile isSpaceChar,
            List.all_eq_true.mp List.all_takeWhile, ?_⟩
          have hcut := List.takeWhile_append_dropWhile (p := isSpaceChar) (l := text)
          rw [htext] at hcut
          simp only [List.cons_append, List.nil_append, List.append_assoc, hcut]
        · obtain ⟨found, hfound, heq⟩ := Option.map_eq_some_iff.mp h
          obtain ⟨rfl, rfl⟩ := Prod.mk.inj heq
          obtain ⟨⟨-, hid⟩, after, hafter, htext⟩ := ih hfound
          refine ⟨⟨by simp, ?_⟩, after, hafter, ?_⟩
          · rw [List.forall_mem_cons]
            exact ⟨hspace, hid⟩
          · rw [htext]
            simp

theorem findMarker_spec {marker before rest : List Char}
    (h : findMarker marker text = some (before, rest)) : text = before ++ marker ++ rest := by
  induction text generalizing before with
  | nil => contradiction
  | cons c text ih =>
      rw [findMarker] at h
      split at h
      · rename_i found hfound
        obtain ⟨rfl, rfl⟩ := Prod.mk.inj (Option.some.inj h)
        exact stripPrefix_eq_some.mp hfound
      · obtain ⟨found, hfound, heq⟩ := Option.map_eq_some_iff.mp h
        obtain ⟨rfl, rfl⟩ := Prod.mk.inj heq
        rw [List.cons_append, List.cons_append, ← ih hfound]

/-- **A match is a complete block** at the start of the text. -/
theorem matchCall_spec {call : CallMatch} {after : List Char}
    (h : matchCall text = some (call, after)) :
    ∃ block, IsBlock block call ∧ text = block ++ after := by
  unfold matchCall at h
  obtain ⟨header, hheader, h⟩ := Option.bind_eq_some_iff.mp h
  obtain ⟨named, hnamed, h⟩ := Option.bind_eq_some_iff.mp h
  dsimp only at h
  split at h
  · contradiction
  · rename_i hname
    obtain ⟨idText, hidText, h⟩ := Option.bind_eq_some_iff.mp h
    obtain ⟨⟨id, argText⟩, hid, h⟩ := Option.bind_eq_some_iff.mp h
    obtain ⟨⟨args, rest⟩, hargs, h⟩ := Option.bind_eq_some_iff.mp h
    obtain ⟨rfl, rfl⟩ := Prod.mk.inj (Option.some.inj h)
    obtain ⟨hidSpec, blanks, hblanks, hidCut⟩ := findId_spec hid
    have hspaces := List.takeWhile_append_dropWhile (p := isSpaceChar) (l := header)
    rw [stripPrefix_eq_some.mp hnamed] at hspaces
    have hnames := List.takeWhile_append_dropWhile (p := isNameChar) (l := named)
    rw [stripPrefix_eq_some.mp hidText] at hnames
    refine ⟨callBegin ++ header.takeWhile isSpaceChar ++ "functions.".toList ++
      named.takeWhile isNameChar ++ [':'] ++ id ++ blanks ++ argBegin ++ args ++ callEnd,
      ⟨⟨hname, List.all_eq_true.mp List.all_takeWhile⟩, hidSpec, header.takeWhile isSpaceChar,
        blanks, List.all_eq_true.mp List.all_takeWhile, hblanks, rfl⟩, ?_⟩
    rw [stripPrefix_eq_some.mp hheader]
    have hargText : argText = args ++ callEnd ++ rest := findMarker_spec hargs
    conv_lhs => rw [← hspaces, ← hnames, hidCut, hargText]
    simp only [List.append_assoc]

theorem IsBlock.ne_nil {block : List Char} {call : CallMatch} (h : IsBlock block call) :
    block ≠ [] := by
  obtain ⟨before, after, -, -, hblock⟩ := h.text
  have hend : callEnd ≠ [] := by decide
  rw [hblock]
  exact List.append_ne_nil_of_right_ne_nil _ hend

/-- **The matches cut the section into its blocks.** -/
theorem splitCalls_spec (skip : Nat) (gap : List Char) (hskip : skip ≤ text.length) :
    Blocks (gap ++ text.drop skip) (splitCalls skip gap text).1 (splitCalls skip gap text).2 := by
  induction text generalizing skip gap with
  | nil =>
      rw [List.drop_nil, List.append_nil]
      cases skip <;> exact .nil gap
  | cons c text ih =>
      cases skip with
      | succ skip =>
          rw [splitCalls, List.drop_succ_cons]
          exact ih skip gap (Nat.le_of_succ_le_succ hskip)
      | zero =>
          rw [splitCalls, List.drop_zero]
          cases hmatch : matchCall (c :: text) with
          | none =>
              have hnext := ih 0 (gap ++ [c]) (Nat.zero_le _)
              rw [List.drop_zero, List.append_assoc] at hnext
              exact hnext
          | some found =>
              obtain ⟨call, after⟩ := found
              obtain ⟨block, hblock, htext⟩ := matchCall_spec hmatch
              obtain ⟨b, block, rfl⟩ := List.exists_cons_of_ne_nil hblock.ne_nil
              obtain ⟨rfl, rfl⟩ : c = b ∧ text = block ++ after := by simpa using htext
              have hnext := ih ((block ++ after).length - after.length) [] (Nat.sub_le _ _)
              have hdrop : (block ++ after).drop ((block ++ after).length - after.length) = after := by
                rw [List.length_append, Nat.add_sub_cancel, List.drop_left]
              rw [hdrop, List.nil_append] at hnext
              dsimp only
              have hcons : Blocks (gap ++ c :: block ++ after) _ _ := .cons hblock hnext
              rw [List.append_assoc, List.cons_append] at hcons
              exact hcons

/-! ## the calls -/

/-- The block's arguments are JSON. -/
def CallMatch.Valid (jsonLoads : String → JsonLoads) (call : CallMatch) : Prop :=
  ∃ value, jsonLoads (String.ofList (stripChars call.args)) = .value value

/-- **The calls that are read**: one for each block, none of them in doubt. -/
theorem readCalls_eq_some {jsonLoads : String → JsonLoads} {seenIds : List (List Char)}
    {blocks : List (List Char × CallMatch)} {calls : List ToolCall} (hseen : seenIds.Nodup)
    (h : readCalls jsonLoads seenIds blocks = .ok (some calls)) :
    (∀ b ∈ blocks, b.1.all isSpaceChar = true ∧ b.2.Valid jsonLoads) ∧
      (blocks.map (·.2.id) ++ seenIds).Nodup ∧ calls = blocks.map (·.2.toCall) := by
  induction blocks generalizing seenIds calls with
  | nil =>
      obtain rfl := Option.some.inj (Except.ok.inj h)
      exact ⟨fun b hb => absurd hb List.not_mem_nil, hseen, rfl⟩
  | cons block blocks ih =>
      obtain ⟨gap, call⟩ := block
      rw [readCalls] at h
      split at h
      · cases Except.ok.inj h
      · rename_i hgap
        rw [Bool.not_eq_true', Bool.not_eq_false] at hgap
        split at h
        · contradiction
        · cases Except.ok.inj h
        · rename_i value hvalue
          split at h
          · cases Except.ok.inj h
          · rename_i hnew
            rw [List.contains_iff_mem] at hnew
            cases hmore : readCalls jsonLoads (call.id :: seenIds) blocks with
            | error e =>
                rw [hmore] at h
                contradiction
            | ok found =>
                rw [hmore] at h
                obtain ⟨more, rfl, hcalls⟩ := Option.map_eq_some_iff.mp (Except.ok.inj h)
                obtain ⟨hblocks, hnodup, rfl⟩ := ih (List.nodup_cons.mpr ⟨hnew, hseen⟩) hmore
                refine ⟨?_, ?_, hcalls.symm⟩
                · rw [List.forall_mem_cons]
                  exact ⟨⟨hgap, value, hvalue⟩, hblocks⟩
                · rw [List.map_cons, List.cons_append, ← List.perm_middle.nodup_iff]
                  exact hnodup

/-- The loop comes to arguments that are nested too deeply for `json.loads`. -/
def Overflows (jsonLoads : String → JsonLoads) (seenIds : List (List Char))
    (blocks : List (List Char × CallMatch)) : Prop :=
  ∃ done gap call more, blocks = done ++ (gap, call) :: more ∧
    (∀ b ∈ done, b.1.all isSpaceChar = true ∧ b.2.Valid jsonLoads) ∧
    (done.map (·.2.id) ++ seenIds).Nodup ∧ gap.all isSpaceChar = true ∧
    jsonLoads (String.ofList (stripChars call.args)) = .recursionError

/-- **The loop raises** where it comes to such arguments, and nowhere else. -/
theorem readCalls_eq_error {jsonLoads : String → JsonLoads} {seenIds : List (List Char)}
    {blocks : List (List Char × CallMatch)} (hseen : seenIds.Nodup) :
    (∃ e, readCalls jsonLoads seenIds blocks = .error e) ↔ Overflows jsonLoads seenIds blocks := by
  induction blocks generalizing seenIds with
  | nil =>
      constructor
      · intro ⟨e, h⟩
        contradiction
      · intro ⟨done, gap, call, more, h, _⟩
        simp at h
  | cons block blocks ih =>
      obtain ⟨gap, call⟩ := block
      constructor
      · intro ⟨e, h⟩
        rw [readCalls] at h
        split at h
        · contradiction
        · rename_i hgap
          rw [Bool.not_eq_true', Bool.not_eq_false] at hgap
          split at h
          · rename_i hdeep
            exact ⟨[], gap, call, blocks, rfl, by simp, by simpa using hseen, hgap, hdeep⟩
          · contradiction
          · rename_i value hvalue
            split at h
            · contradiction
            · rename_i hnew
              rw [List.contains_iff_mem] at hnew
              cases hmore : readCalls jsonLoads (call.id :: seenIds) blocks with
              | ok found =>
                  rw [hmore] at h
                  contradiction
              | error e' =>
                  obtain ⟨done, gap', call', more, rfl, hdone, hnodup, hgap', hdeep⟩ :=
                    (ih (List.nodup_cons.mpr ⟨hnew, hseen⟩)).mp ⟨e', hmore⟩
                  refine ⟨(gap, call) :: done, gap', call', more, rfl, ?_, ?_, hgap', hdeep⟩
                  · rw [List.forall_mem_cons]
                    exact ⟨⟨hgap, value, hvalue⟩, hdone⟩
                  · rw [List.map_cons, List.cons_append, ← List.perm_middle.nodup_iff]
                    exact hnodup
      · intro ⟨done, gap', call', more, hblocks, hdone, hnodup, hgap', hdeep⟩
        rw [readCalls]
        cases done with
        | nil =>
            obtain ⟨heq, rfl⟩ := List.cons.inj hblocks
            obtain ⟨rfl, rfl⟩ := Prod.mk.inj heq
            rw [hgap', hdeep]
            exact ⟨_, rfl⟩
        | cons b done =>
            obtain ⟨rfl, rfl⟩ := List.cons.inj hblocks
            rw [List.forall_mem_cons] at hdone
            obtain ⟨⟨hgap, value, hvalue⟩, hdone⟩ := hdone
            rw [List.map_cons, List.cons_append, ← List.perm_middle.nodup_iff] at hnodup
            have hids := (List.nodup_append.mp hnodup).2.1
            have hnew := (List.nodup_cons.mp hids).1
            obtain ⟨e, hmore⟩ := (ih hids).mpr
              ⟨done, gap', call', more, rfl, hdone, hnodup, hgap', hdeep⟩
            have hcontains : seenIds.contains call.id = false := by
              rw [← Bool.not_eq_true, List.contains_iff_mem]
              exact hnew
            dsimp only at hgap hvalue
            rw [hgap, hvalue, hcontains]
            simp only [Bool.not_true, Bool.false_eq_true, if_false, hmore]
            exact ⟨e, rfl⟩

/-! ## what is extracted -/

/-- Where the section stands in a text, by its plain markers. -/
def Located (content : List Char) (start stop : Nat) : Prop :=
  (Plain content sectionBegin start ∧ ∀ i, Plain content sectionBegin i → i = start) ∧
    (Plain content sectionEnd stop ∧ ∀ i, Plain content sectionEnd i → i = stop) ∧
    start + sectionBegin.length ≤ stop

/-- **What recovered calls rest on**: one plain section in the text, made of complete
blocks with blanks between them, all of their arguments JSON and no id twice; what
is kept of the text is the rest of it. -/
structure Recovered (jsonLoads : String → JsonLoads) (content : String) (calls : List ToolCall)
    (kept : Option String) : Prop where
  section_ : ∃ before inside after, content.toList =
      before ++ sectionBegin ++ inside ++ sectionEnd ++ after ∧
    Located content.toList before.length (before.length + sectionBegin.length + inside.length) ∧
    kept = orNone (some (String.ofList (stripChars (before ++ after)))) ∧
    ∃ blocks tail, Blocks inside blocks tail ∧ tail.all isSpaceChar = true ∧
      (∀ b ∈ blocks, b.1.all isSpaceChar = true ∧ b.2.Valid jsonLoads) ∧
      calls = blocks.map (·.2.toCall)
  distinct : (calls.map ToolCall.id).Nodup

/-- What the function returns is all there is to say of it: calls that a section
bears out, or the content as it is. -/
def Sound (jsonLoads : String → JsonLoads) (content : String) : Prop :=
  ∃ calls kept, extractMarkupToolCalls jsonLoads content = .ok (calls, kept) ∧
    (calls = [] ∧ kept = some content ∨ calls ≠ [] ∧ Recovered jsonLoads content calls kept)

/-- The text holds a section in which the loop comes to arguments that are nested
too deeply for `json.loads`. -/
def TooDeep (jsonLoads : String → JsonLoads) (content : String) : Prop :=
  ∃ start stop, Located content.toList start stop ∧ Overflows jsonLoads []
    (splitCalls 0 []
      ((content.toList.take stop).drop (start + sectionBegin.length))).1

/-- A located section, and the text around it. -/
theorem Located.cut (h : Located content start stop) :
    content = content.take start ++ sectionBegin ++
        (content.take stop).drop (start + sectionBegin.length) ++ sectionEnd ++
        content.drop (stop + sectionEnd.length) ∧
      (content.take start).length = start ∧
      start + sectionBegin.length +
        ((content.take stop).drop (start + sectionBegin.length)).length = stop := by
  obtain ⟨⟨⟨hbegin, -⟩, -⟩, ⟨⟨hend, -⟩, -⟩, hle⟩ := h
  have hfirst := hbegin.eq_append (Nat.zero_le _)
  have hrest := hend.eq_append hle
  have hlen := hend.1
  rw [List.drop_zero, Nat.sub_zero] at hfirst
  rw [← List.drop_take] at hrest
  refine ⟨?_, ?_, ?_⟩
  · conv_lhs => rw [hfirst, hrest]
    simp only [List.append_assoc]
  · rw [List.length_take]
    omega
  · rw [List.length_drop, List.length_take]
    omega

/-- A text in which the section stands has its begin marker. -/
theorem Located.occurrences_ne_nil (h : Located content start stop) :
    occurrences sectionBegin content 0 ≠ [] := by
  intro hnil
  have hmem := mem_occurrences.mpr ⟨Nat.zero_le start, h.1.1.1⟩
  rw [hnil] at hmem
  contradiction

/-- There is one section at most. -/
theorem Located.eq {start' stop' : Nat} (h : Located content start stop)
    (h' : Located content start' stop') : start' = start ∧ stop' = stop :=
  ⟨h.1.2 _ h'.1.1, h.2.1.2 _ h'.2.1.1⟩

/-- **Recovered calls rest on the section** they are read from. -/
theorem Located.recovered {jsonLoads : String → JsonLoads} {content : String}
    {calls : List ToolCall} (h : Located content.toList start stop)
    (hread : readCalls jsonLoads [] (splitCalls 0 []
      ((content.toList.take stop).drop (start + sectionBegin.length))).1 = .ok (some calls))
    (htail : (splitCalls 0 []
      ((content.toList.take stop).drop (start + sectionBegin.length))).2.all isSpaceChar = true) :
    Recovered jsonLoads content calls (orNone (some (String.ofList (stripChars
      (content.toList.take start ++ content.toList.drop (stop + sectionEnd.length)))))) := by
  obtain ⟨hcut, hstart, hstop⟩ := h.cut
  have hblocks := splitCalls_spec 0 []
    (Nat.zero_le ((content.toList.take stop).drop (start + sectionBegin.length)).length)
  rw [List.drop_zero, List.nil_append] at hblocks
  obtain ⟨hsound, hids, hcalls⟩ := readCalls_eq_some List.nodup_nil hread
  refine ⟨⟨_, _, _, hcut, ?_, rfl, _, _, hblocks, htail, hsound, hcalls⟩, ?_⟩
  · rw [hstart, hstop]
    exact h
  · rw [List.append_nil] at hids
    have hmap : (calls.map ToolCall.id) = ((splitCalls 0 []
        ((content.toList.take stop).drop (start + sectionBegin.length))).1.map (·.2.id)).map
          String.ofList := by
      rw [hcalls, List.map_map, List.map_map]
      rfl
    rw [hmap]
    exact hids.map fun _ _ => String.ofList_injective

/-- **Recovery is sound** for every text but those in which it overflows. -/
theorem sound_iff (jsonLoads : String → JsonLoads) (content : String) :
    Sound jsonLoads content ↔ ¬TooDeep jsonLoads content := by
  have hsound : ∀ {calls kept}, extractMarkupToolCalls jsonLoads content = .ok (calls, kept) →
      (calls = [] ∧ kept = some content ∨ calls ≠ [] ∧ Recovered jsonLoads content calls kept) →
      Sound jsonLoads content := fun h hr => ⟨_, _, h, hr⟩
  unfold extractMarkupToolCalls at hsound
  by_cases hbegin : occurrences sectionBegin content.toList 0 = []
  · rw [if_pos hbegin] at hsound
    constructor
    · intro _ ⟨start, stop, hloc, _⟩
      exact hloc.occurrences_ne_nil hbegin
    · intro _
      exact hsound rfl (.inl ⟨rfl, rfl⟩)
  · rw [if_neg hbegin] at hsound
    cases hsection : locateSection (unquotedMarkupText content.toList) with
    | none =>
        rw [hsection] at hsound
        constructor
        · intro _ ⟨start, stop, hloc, _⟩
          rw [locateSection_eq_some.mpr hloc] at hsection
          contradiction
        · intro _
          exact hsound rfl (.inl ⟨rfl, rfl⟩)
    | some at' =>
        obtain ⟨start, stop⟩ := at'
        have hloc : Located content.toList start stop := locateSection_eq_some.mp hsection
        have hdeep : TooDeep jsonLoads content ↔ ∃ e, readCalls jsonLoads [] (splitCalls 0 []
            ((content.toList.take stop).drop (start + sectionBegin.length))).1 = .error e := by
          rw [readCalls_eq_error List.nodup_nil]
          constructor
          · intro ⟨start', stop', hloc', hover⟩
            obtain ⟨rfl, rfl⟩ := hloc.eq hloc'
            exact hover
          · intro hover
            exact ⟨start, stop, hloc, hover⟩
        rw [hsection] at hsound
        rw [hdeep]
        dsimp only at hsound
        cases hread : readCalls jsonLoads [] (splitCalls 0 []
            ((content.toList.take stop).drop (start + sectionBegin.length))).1 with
        | error e =>
            constructor
            · intro ⟨calls, kept, h, _⟩
              unfold extractMarkupToolCalls at h
              rw [if_neg hbegin, hsection] at h
              dsimp only at h
              rw [hread] at h
              contradiction
            · intro h
              exact absurd ⟨e, rfl⟩ h
        | ok found =>
            rw [hread] at hsound
            constructor
            · intro _ ⟨e, h⟩
              contradiction
            · intro _
              cases found with
              | none => exact hsound rfl (.inl ⟨rfl, rfl⟩)
              | some calls =>
                  dsimp only at hsound
                  split at hsound
                  · exact hsound rfl (.inl ⟨rfl, rfl⟩)
                  · rename_i hclean
                    rw [Bool.or_eq_true, not_or, decide_eq_true_eq, Bool.not_eq_true',
                      Bool.not_eq_false] at hclean
                    exact hsound rfl (.inr ⟨hclean.1, hloc.recovered hread hclean.2⟩)

/-- Every position of the copy holds the character of the text, or a space. -/
def MaskKeeps (content : List Char) : Prop :=
  (unquotedMarkupText content).length = content.length ∧
    ∀ i, (unquotedMarkupText content)[i]? = content[i]? ∨
      i < content.length ∧ (unquotedMarkupText content)[i]? = some ' '

theorem maskKeeps (content : List Char) : MaskKeeps content := by
  refine ⟨length_unquotedMarkupText content, fun i => ?_⟩
  rw [unquotedMarkupText_eq]
  cases hc : content[i]? with
  | none => exact .inl rfl
  | some c =>
      rw [Option.map_some]
      cases quoted content i with
      | false => exact .inl rfl
      | true => exact .inr ⟨(List.getElem?_eq_some_iff.mp hc).1, rfl⟩

/-- **Markup recovery**: the copy keeps every position, and what is extracted is
sound, for every text but those in which the arguments overflow `json.loads`. -/
theorem markup_recovery_iff (jsonLoads : String → JsonLoads) (content : String) :
    MaskKeeps content.toList ∧ Sound jsonLoads content ↔ ¬TooDeep jsonLoads content := by
  rw [sound_iff]
  exact and_iff_right (maskKeeps content.toList)

/-- A section with one call, whose arguments are a thousand open brackets. -/
def nestedSection : List Char :=
  "<|tool_calls_section_begin|><|tool_call_begin|>functions.f:0<|tool_call_argument_begin|>".toList ++
    List.replicate 1000 '[' ++ "<|tool_call_end|><|tool_calls_section_end|>".toList

/-- `json.loads` on open brackets: a thousand are too many. -/
def bracketLoads (text : String) : JsonLoads :=
  if 1000 ≤ (text.toList.takeWhile (· = '[')).length then .recursionError else .valueError

/-- Nothing is quoted in it, so the copy is the text. -/
theorem unquoted_nestedSection : unquotedMarkupText nestedSection = nestedSection := by
  decide +kernel

/-- A marker starts at one of the five `<`. -/
theorem starts_nestedSection {marker : List Char} (h : Occurs ('<' :: marker) nestedSection i) :
    i ∈ [0, 28, 60, 1088, 1105] := by
  have hall : (nestedSection.zipIdx.filter (·.1 = '<')).map (·.2) = [0, 28, 60, 1088, 1105] := by
    decide +kernel
  have hhead := (occurs_iff_getElem?.mp h).2 0 (Nat.zero_lt_succ _)
  rw [Nat.add_zero, List.getElem?_cons_zero] at hhead
  rw [← hall, List.mem_map]
  refine ⟨('<', i), List.mem_filter.mpr ⟨?_, rfl⟩, rfl⟩
  rw [List.mem_zipIdx_iff_getElem?]
  exact hhead

/-- The section is the whole text. -/
theorem located_nestedSection : Located nestedSection 0 1105 := by
  have hplain : ∀ {marker : List Char} {start : Nat}, ' ' ∉ marker →
      (Plain nestedSection marker start ↔ Occurs marker nestedSection start) := by
    intro marker start hmarker
    rw [← occurs_unquotedMarkupText hmarker, unquoted_nestedSection]
  have honly : ∀ {marker : List Char} {start : Nat}, ' ' ∉ '<' :: marker →
      (∀ j ∈ [0, 28, 60, 1088, 1105], (nestedSection.drop j).take (marker.length + 1) =
        '<' :: marker → j = start) →
      ∀ i, Plain nestedSection ('<' :: marker) i → i = start := by
    intro marker start hmarker hwindows i h
    rw [hplain hmarker] at h
    exact hwindows i (starts_nestedSection h) h.2
  refine ⟨⟨(hplain (by decide)).mpr ⟨by decide +kernel, by decide +kernel⟩, ?_⟩,
    ⟨(hplain (by decide)).mpr ⟨by decide +kernel, by decide +kernel⟩, ?_⟩, by decide⟩
  · have hcons : sectionBegin = '<' :: sectionBegin.tail := by decide
    rw [hcons]
    exact honly (by decide) (by decide +kernel)
  · have hcons : sectionEnd = '<' :: sectionEnd.tail := by decide
    rw [hcons]
    exact honly (by decide) (by decide +kernel)

/-- **Arguments nested a thousand deep raise** out of the recovery. -/
theorem nestedSection_overflows :
    ¬(MaskKeeps (String.ofList nestedSection).toList ∧
      Sound bracketLoads (String.ofList nestedSection)) := by
  have hsplit : splitCalls 0 [] ((nestedSection.take 1105).drop (0 + sectionBegin.length)) =
      ([([], ⟨['f'], ['0'], List.replicate 1000 '['⟩)], []) := by
    decide +kernel
  rw [sound_iff, String.toList_ofList]
  intro h
  refine h.2 ⟨0, 1105, by rw [String.toList_ofList]; exact located_nestedSection, ?_⟩
  rw [String.toList_ofList, hsplit]
  have hstrip : stripChars (List.replicate 1000 '[') = List.replicate 1000 '[' := by
    decide +kernel
  have hdeep : bracketLoads (String.ofList (List.replicate 1000 '[')) = .recursionError := by
    rw [bracketLoads, String.toList_ofList]
    exact if_pos (by decide +kernel)
  refine ⟨[], [], ⟨['f'], ['0'], List.replicate 1000 '['⟩, [], rfl, by simp, List.nodup_nil, rfl, ?_⟩
  rw [hstrip, hdeep]

end OpenCollab.Markup
