import Mathlib.Data.List.Basic

/-!
# OpenCollab.Lib.Xml

XML documents as far as the attributes of their elements go.

`read` is a reader of documents that consist of elements, attributes, character
data and references: what it accepts is well formed, and what it gives are the
attributes of the elements in document order, with references replaced.  A parser
knows more (comments, declarations, name spaces), so it is not a definition here but
an `ElementTree`: any function that takes no text with a character outside XML 1.0
and agrees with the reader wherever the reader accepts.

A text is read piece by piece:

* `Scans.append` — pieces compose;
* `scans_chars` — a piece that is read character by character;
* `reader` — the reader is an `ElementTree`.
-/

namespace OpenCollab.Xml

/-! ## characters -/

/-- The characters of XML 1.0. -/
def isXmlChar (c : Char) : Bool :=
  c = '\t' || c = '\n' || c = '\r' || (0x20 ≤ c.toNat && c.toNat ≤ 0xD7FF) ||
    (0xE000 ≤ c.toNat && c.toNat ≤ 0xFFFD) || (0x10000 ≤ c.toNat && c.toNat ≤ 0x10FFFF)

/-- An XML document can hold the text. -/
def Legible (text : String) : Prop := text.toList.all isXmlChar = true

instance (text : String) : Decidable (Legible text) :=
  inferInstanceAs (Decidable (text.toList.all isXmlChar = true))

theorem Legible.char {text : String} (h : Legible text) {c : Char} (hc : c ∈ text.toList) :
    isXmlChar c = true :=
  List.all_eq_true.mp h c hc

/-- The characters that begin a name here, and those that go on with one. -/
def isNameStart (c : Char) : Bool := c.isAlpha || c = '_'

def isNameChar (c : Char) : Bool := c.isAlphanum || c = '_' || c = '-'

/-- The character of a reference. -/
def entity? (word : List Char) : Option Char :=
  match String.ofList word with
  | "amp" => some '&'
  | "lt" => some '<'
  | "gt" => some '>'
  | "quot" => some '"'
  | "apos" => some '\''
  | "#9" => some '\t'
  | "#10" => some '\n'
  | "#13" => some '\r'
  | _ => none

/-! ## the reader -/

/-- The attributes of an element. -/
abbrev Attributes := List (String × String)

/-- A start tag as far as it is read. -/
structure Tag where
  name : List Char
  attrib : Attributes := []
deriving DecidableEq

/-- Where a reader is. -/
inductive Mode where
  /-- Before the root, in the content of an element, behind a `<`, behind the root. -/
  | start
  | data
  | opened
  | done
  /-- In a reference of the content. -/
  | reference (word : List Char)
  /-- In the name of a start tag, or of an end tag. -/
  | tag (name : List Char)
  | closing (name : List Char)
  /-- In a start tag: behind a blank, in a name, behind its `=`, behind a value. -/
  | blank (tag : Tag)
  | attribute (tag : Tag) (name : List Char)
  | assigned (tag : Tag) (name : List Char)
  | valued (tag : Tag)
  /-- In a quoted value, or in a reference of it. -/
  | value (tag : Tag) (name : List Char) (quote : Char) (read : List Char)
  | valueReference (tag : Tag) (name : List Char) (quote : Char) (read word : List Char)
deriving DecidableEq

/-- The open elements, innermost first, and the attributes of all elements so far. -/
structure Reader where
  mode : Mode := .start
  stack : List (List Char) := []
  elements : List Attributes := []
deriving DecidableEq

namespace Reader

/-- A start tag is complete. -/
def push (s : Reader) (tag : Tag) : Reader where
  mode := .data
  stack := tag.name :: s.stack
  elements := s.elements ++ [tag.attrib]

/-- An end tag is complete. -/
def pop (s : Reader) (name : List Char) : Option Reader :=
  match s.stack with
  | [] => none
  | top :: rest =>
      if top = name then
        some { s with mode := if rest.isEmpty then .done else .data, stack := rest }
      else none

/-- One character where no character is refused. -/
def advance (s : Reader) (c : Char) : Option Reader :=
  match s.mode with
  | .start => if c = '<' then some { s with mode := .opened } else none
  | .done => none
  | .data =>
      if c = '<' then some { s with mode := .opened }
      else if c = '&' then some { s with mode := .reference [] }
      else if c = '>' then none
      else some s
  | .reference word =>
      if c = ';' then (entity? word).map fun _ => { s with mode := .data }
      else some { s with mode := .reference (word ++ [c]) }
  | .opened =>
      if c = '/' then some { s with mode := .closing [] }
      else if isNameStart c then some { s with mode := .tag [c] }
      else none
  | .closing name =>
      if c = '>' then s.pop name
      else if isNameChar c then some { s with mode := .closing (name ++ [c]) }
      else none
  | .tag name =>
      if c = '>' then some (s.push { name })
      else if c = ' ' then some { s with mode := .blank { name } }
      else if isNameChar c then some { s with mode := .tag (name ++ [c]) }
      else none
  | .blank tag => if isNameStart c then some { s with mode := .attribute tag [c] } else none
  | .attribute tag name =>
      if c = '=' then
        -- a declaration of a name space is no attribute, and no attribute stands twice
        if String.ofList name = "xmlns" || tag.attrib.any (·.1 = String.ofList name) then none
        else some { s with mode := .assigned tag name }
      else if isNameChar c then some { s with mode := .attribute tag (name ++ [c]) }
      else none
  | .assigned tag name =>
      if c = '"' || c = '\'' then some { s with mode := .value tag name c [] } else none
  | .value tag name quote read =>
      if c = quote then
        some { s with mode := .valued { tag with
          attrib := tag.attrib ++ [(String.ofList name, String.ofList read)] } }
      else if c = '<' then none
      else if c = '&' then some { s with mode := .valueReference tag name quote read [] }
      else if c = '\t' || c = '\n' || c = '\r' then none
      else some { s with mode := .value tag name quote (read ++ [c]) }
  | .valueReference tag name quote read word =>
      if c = ';' then
        (entity? word).map fun e => { s with mode := .value tag name quote (read ++ [e]) }
      else some { s with mode := .valueReference tag name quote read (word ++ [c]) }
  | .valued tag =>
      if c = '>' then some (s.push tag)
      else if c = ' ' then some { s with mode := .blank tag }
      else none

/-- One character. -/
def step (s : Reader) (c : Char) : Option Reader := if isXmlChar c then s.advance c else none

end Reader

/-- The attributes of the elements of a document. -/
def read (text : String) : Option (List Attributes) :=
  (text.toList.foldlM Reader.step {}).bind fun s =>
    if s.mode = .done then some s.elements else none

/-- What the reader accepts is legible. -/
theorem legible_of_foldlM {chars : List Char} {s s' : Reader}
    (h : chars.foldlM Reader.step s = some s') : chars.all isXmlChar = true := by
  induction chars generalizing s with
  | nil => rfl
  | cons c chars ih =>
      rw [List.foldlM_cons] at h
      cases hc : isXmlChar c with
      | false =>
          rw [Reader.step, hc] at h
          contradiction
      | true =>
          obtain ⟨next, -, hrest⟩ := Option.bind_eq_some_iff.mp h
          rw [List.all_cons, hc, ih hrest]
          rfl

theorem legible_of_read {text : String} {elements : List Attributes}
    (h : read text = some elements) : Legible text := by
  obtain ⟨s, hs, -⟩ := Option.bind_eq_some_iff.mp h
  exact legible_of_foldlM hs

/-! ## pieces -/

/-- A piece of a document takes the reader from one place to another. -/
def Scans (s : Reader) (text : String) (s' : Reader) : Prop :=
  text.toList.foldlM Reader.step s = some s'

theorem Scans.append {s s' s'' : Reader} {a b : String} (ha : Scans s a s')
    (hb : Scans s' b s'') : Scans s (a ++ b) s'' := by
  unfold Scans at *
  rw [String.toList_append, List.foldlM_append, ha]
  exact hb

/-- **A piece that is written character by character**: if every character takes the
reader on as `next` says, so does the piece. -/
theorem scans_chars {write : Char → List Char} {place : List Char → Reader}
    {chars : List Char} (read : List Char)
    (h : ∀ c ∈ chars, ∀ before, (write c).foldlM Reader.step (place before) =
      some (place (before ++ [c]))) :
    (chars.flatMap write).foldlM Reader.step (place read) = some (place (read ++ chars)) := by
  induction chars generalizing read with
  | nil => simp
  | cons c chars ih =>
      rw [List.forall_mem_cons] at h
      rw [List.flatMap_cons, List.foldlM_append, h.1 read]
      have hrest := ih (read ++ [c]) h.2
      rw [List.append_assoc] at hrest
      exact hrest

theorem read_of_scans {text : String} {elements : List Attributes}
    (h : Scans {} text { mode := .done, elements }) : read text = some elements := by
  unfold read
  rw [h]
  rfl

/-! ## parsers -/

/-- **A parser of documents**: the attributes of the elements in document order, and the
text of the document, or nothing where the text is no document. -/
structure ElementTree where
  attribs : String → Option (List Attributes)
  itertext : String → Option String
  legible : ∀ text elements, attribs text = some elements → Legible text
  reads : ∀ text elements, read text = some elements → attribs text = some elements

/-- The reader is a parser, whatever text it finds. -/
def reader (itertext : String → Option String) : ElementTree where
  attribs := read
  itertext := itertext
  legible := fun _ _ => legible_of_read
  reads := fun _ _ h => h

end OpenCollab.Xml
