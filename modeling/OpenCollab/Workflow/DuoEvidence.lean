import OpenCollab.Lib.Dict
import OpenCollab.Lib.Effect
import OpenCollab.Patch.Utf8
import OpenCollab.Patch.WrittenPatch

/-!
# OpenCollab.Workflow.DuoEvidence

The evidence files of a candidate (`builtin_workflows/duo/_candidate_evidence_files.py`):
the diff, an index of its blocks, and the reader that pages through a file.  A file is
written as UTF-8 and read by characters.

* `read_stored` — one page of a file;
* `follow_stored` — the pages of a file make up its text;
* `indexEntries_writePatch` — the entries of a patch select its blocks;
* `evidence_complete_iff` — when the evidence of a candidate is complete.
-/

namespace OpenCollab.Evidence

open Lib PatchPaths

/-! ## files -/

/-- What `add_candidate` raises. -/
inductive EvidenceError where
  | unicodeEncodeError
  | valueError
  | typeError
deriving DecidableEq

/-- A registered file: its bytes, and the length of the text that was written. -/
structure EvidenceFile where
  bytes : List Nat
  total : Nat
  written : ∃ text, Encodable text ∧ bytes = encodeText text ∧ total = text.length

/-- The registered files. -/
abbrev Files := Dict Str EvidenceFile

/-- The file of a text. -/
def EvidenceFile.of (text : Str) (h : Encodable text) : EvidenceFile :=
  ⟨encodeText text, text.length, text, h, rfl, rfl⟩

/-- `_write`. -/
def write (files : Files) (name content : Str) : Except EvidenceError Files :=
  if h : Encodable content then .ok (files.set name (.of content h)) else .error .unicodeEncodeError

/-- `_json`, of a value by its dump: `none` where `json.dumps` raises. -/
def writeJson (files : Files) (name : Str) : Option Str → Except EvidenceError Files
  | none => .error .typeError
  | some text => write files name (text ++ [10])

/-! ## the index -/

/-- One character in a JSON string. -/
def jsonChar (c : Nat) : Str :=
  if c = 34 then [92, 34]
  else if c = 92 then [92, 92]
  else if c = 10 then ascii "\\n"
  else if c = 13 then ascii "\\r"
  else if c = 9 then ascii "\\t"
  else if c = 12 then ascii "\\f"
  else if c = 8 then ascii "\\b"
  else if c < 32 then ascii "\\u00" ++ ascii (String.ofList [Nat.digitChar (c / 16), Nat.digitChar (c % 16)])
  else [c]

/-- `json.dumps(text, ensure_ascii=False)`. -/
def jsonString (text : Str) : Str := 34 :: (text.flatMap jsonChar ++ [34])

/-- An entry of the index. -/
structure IndexEntry where
  paths : List (Str × Str)
  binary : Bool
  diffPath : Str
  offset : Nat
  length : Nat
deriving DecidableEq

/-- `json.dumps(list(pair))`. -/
def pairText (pair : Str × Str) : Str :=
  ascii "[" ++ jsonString pair.1 ++ ascii ", " ++ jsonString pair.2 ++ ascii "]"

/-- `json.dumps(entry, ensure_ascii=False) + "\n"`. -/
def IndexEntry.line (e : IndexEntry) : Str :=
  ascii "\x7b\"paths\": [" ++ (ascii ", ").intercalate (e.paths.map pairText) ++
    ascii "], \"kind\": " ++
    jsonString (ascii (if e.binary then "binary_patch" else "text_or_metadata")) ++
    ascii ", \"diff_path\": " ++ jsonString e.diffPath ++
    ascii ", \"offset\": " ++ ascii (toString e.offset) ++
    ascii ", \"length\": " ++ ascii (toString e.length) ++ ascii "\x7d\n"

/-- The marker occurs in the block. -/
def contains (marker text : Str) : Bool := occurrences marker text 0 ≠ []

/-- The loop of `add_candidate` over the blocks; `none`: `patch_entries` raises. -/
def indexEntries (diffPath : Str) : (offset : Nat) → List (List Str) → Option (List IndexEntry)
  | _, [] => some []
  | offset, lines :: blocks => do
      let block := lines.flatten
      let paths ← patchEntries block
      let entries ← indexEntries diffPath (offset + block.length) blocks
      some ({ paths, binary := contains (ascii "GIT binary patch\n") block, diffPath, offset
              length := block.length } :: entries)

/-- What is read of a candidate; `publicEvidence` and `report` are the dumps of the dicts,
`none` where a value in them has none, and `delivery` is the effective diff where there is
a delivery diff. -/
structure Candidate where
  diff : Str
  delivery : Option Str
  publicEvidence : Option Str
  report : Option Str

def diffName (label : String) : Str := ascii label ++ ascii "/candidate.diff"
def indexName (label : String) : Str := ascii label ++ ascii "/index.jsonl"
def recordsName (label : String) : Str := ascii label ++ ascii "/public-evidence.json"
def resultName (label : String) : Str := ascii label ++ ascii "/result.json"
def deliveryName (label : String) : Str := ascii label ++ ascii "/candidate.delivery.diff"

/-- The evidence of a candidate; `delivery`: path, characters and bytes. -/
structure CandidateEvidence where
  resultPath : Str
  indexPath : Str
  diffPath : Str
  publicEvidencePath : Str
  diffCharacters : Nat
  diffBytes : Nat
  diffBlocks : Nat
  delivery : Option (Str × Nat × Nat)

/-- `add_candidate`. -/
def addCandidate (files : Files) (label : String) (candidate : Candidate) :
    Except EvidenceError (Files × CandidateEvidence) := do
  let files ← write files (diffName label) candidate.diff
  match indexEntries (diffName label) 0 (splitPatchBlocks candidate.diff) with
  | none => .error .valueError
  | some entries =>
      let files ← write files (indexName label) (entries.flatMap IndexEntry.line)
      let files ← writeJson files (recordsName label) candidate.publicEvidence
      let files ← writeJson files (resultName label) candidate.report
      let evidence : CandidateEvidence :=
        { resultPath := resultName label, indexPath := indexName label, diffPath := diffName label
          publicEvidencePath := recordsName label, diffCharacters := candidate.diff.length
          diffBytes := (encodeText candidate.diff).length, diffBlocks := entries.length
          delivery := none }
      match candidate.delivery with
      | none => .ok (files, evidence)
      | some delivery =>
          let files ← write files (deliveryName label) delivery
          .ok (files, { evidence with
            delivery := some (deliveryName label, delivery.length, (encodeText delivery).length) })

/-! ## the reader -/

/-- What `read` raises. -/
inductive ReadError where
  | unknownPath
  | offsetOutOfRange
  | unicodeDecodeError
  | endedBeforeOffset
  | endedBeforeLength
deriving DecidableEq

/-- The text of a file opened as UTF-8. -/
def openText (bytes : List Nat) : Option Str :=
  if Encodable (decodeUtf8 0 bytes) then some (decodeUtf8 0 bytes) else none

/-- The loop that skips to the offset, in reads of 65536 characters at most. -/
def skipTo (remaining : Nat) (stream : Str) : Option Str :=
  if _hzero : remaining = 0 then some stream
  else
    let skipped := stream.take (min remaining 65536)
    if _hskip : skipped = [] then none
    else skipTo (remaining - skipped.length) (stream.drop skipped.length)
termination_by remaining
decreasing_by exact Nat.sub_lt (Nat.pos_of_ne_zero _hzero) (List.length_pos_of_ne_nil _hskip)

/-- A page. -/
structure Page where
  path : Str
  offset : Nat
  content : Str
  nextOffset : Option Nat
  totalCharacters : Nat
  eof : Bool
deriving DecidableEq

/-- `read`, at an offset that is not negative. -/
def read (files : Files) (path : Str) (offset limit : Nat) : Except ReadError Page :=
  match files.get? path with
  | none => .error .unknownPath
  | some file =>
      if file.total < offset then .error .offsetOutOfRange
      else match openText file.bytes with
        | none => .error .unicodeDecodeError
        | some text =>
            match skipTo offset text with
            | none => .error .endedBeforeOffset
            | some stream =>
                let content := stream.take (min limit (file.total - offset))
                let stop := offset + content.length
                if stop < min file.total (offset + limit) then .error .endedBeforeLength
                else .ok { path, offset, content
                           nextOffset := if stop < file.total then some stop else none
                           totalCharacters := file.total, eof := stop = file.total }

/-- The pages from an offset on, each with the next limit, `fuel` of them at most. -/
def follow (files : Files) (path : Str) (limits : Nat → Nat) :
    (fuel page offset : Nat) → Option (List Str)
  | 0, _, _ => none
  | fuel + 1, page, offset =>
      match read files path offset (limits page) with
      | .error _ => none
      | .ok found =>
          match found.nextOffset with
          | none => some [found.content]
          | some next => (follow files path limits fuel (page + 1) next).map (found.content :: ·)

/-! ## reading -/

/-- The text is what is stored under the name. -/
def Stored (files : Files) (name text : Str) : Prop :=
  ∃ file, files.get? name = some file ∧ file.bytes = encodeText text ∧ file.total = text.length ∧
    Encodable text

variable {files files' : Files} {name text content : Str} {label : String} {limits : Nat → Nat} {offset : Nat}

/-- Every registered file stores a text. -/
theorem exists_stored {file : EvidenceFile} (h : files.get? name = some file) :
    ∃ text, Stored files name text := by
  obtain ⟨text, htext, hbytes, htotal⟩ := file.written
  exact ⟨text, file, h, hbytes, htotal, htext⟩

theorem skipTo_eq (remaining : Nat) (stream : Str) (h : remaining ≤ stream.length) :
    skipTo remaining stream = some (stream.drop remaining) := by
  induction remaining using Nat.strongRecOn generalizing stream with
  | _ remaining ih =>
      rw [skipTo]
      split
      · rename_i hzero
        rw [hzero, List.drop_zero]
      · rename_i hzero
        have hlen : (stream.take (min remaining 65536)).length = min remaining 65536 := by
          rw [List.length_take]
          omega
        have hskip : stream.take (min remaining 65536) ≠ [] := by
          rw [← List.length_pos_iff, hlen]
          omega
        dsimp only
        rw [dif_neg hskip, hlen, ih _ (by omega) _ (by rw [List.length_drop]; omega), List.drop_drop]
        congr 2
        omega

/-- **One page of a stored text.** -/
theorem read_stored {limit : Nat} (h : Stored files name text) (hoffset : offset ≤ text.length) :
    read files name offset limit = .ok
      { path := name, offset, content := (text.drop offset).take limit
        nextOffset := if offset + limit < text.length then some (offset + limit) else none
        totalCharacters := text.length, eof := decide (text.length ≤ offset + limit) } := by
  obtain ⟨file, hfile, hbytes, htotal, htext⟩ := h
  have hopen : openText file.bytes = some text := by
    rw [openText, hbytes, decodeUtf8_encodeText htext, if_pos htext]
  have hcontent : (text.drop offset).take (min limit (text.length - offset)) =
      (text.drop offset).take limit := by
    rw [← List.length_drop, ← List.take_eq_take_min]
  have hlen : ((text.drop offset).take limit).length = min limit (text.length - offset) := by
    rw [List.length_take, List.length_drop]
  rw [read, hfile]
  dsimp only
  rw [htotal, if_neg (by omega), hopen]
  dsimp only
  rw [skipTo_eq _ _ hoffset]
  dsimp only
  rw [hcontent, hlen, if_neg (by omega)]
  congr 2
  · by_cases hmore : offset + limit < text.length
    · rw [if_pos hmore, if_pos (by omega)]
      congr 1
      omega
    · rw [if_neg hmore, if_neg (by omega)]
  · rw [decide_eq_decide]
    omega

/-- **The pages from an offset make up the rest of the text.** -/
theorem follow_stored (h : Stored files name text) (hlimits : ∀ i, 1 ≤ limits i) (page : Nat)
    (hoffset : offset ≤ text.length) :
    ∃ fuel pages, follow files name limits fuel page offset = some pages ∧
      pages.flatten = text.drop offset := by
  induction hrest : text.length - offset using Nat.strongRecOn generalizing page offset with
  | _ rest ih =>
      have hlimit := hlimits page
      by_cases hmore : offset + limits page < text.length
      · obtain ⟨fuel, pages, hfollow, hflatten⟩ := ih (text.length - (offset + limits page))
          (by omega) (page + 1) (Nat.le_of_lt hmore) rfl
        refine ⟨fuel + 1, (text.drop offset).take (limits page) :: pages, ?_, ?_⟩
        · rw [follow, read_stored h hoffset, if_pos hmore]
          dsimp only
          rw [hfollow, Option.map_some]
        · rw [List.flatten_cons, hflatten, ← List.drop_drop, List.take_append_drop]
      · refine ⟨1, [(text.drop offset).take (limits page)], ?_, ?_⟩
        · rw [follow, read_stored h hoffset, if_neg hmore]
        · rw [List.flatten_singleton, List.take_of_length_le (by rw [List.length_drop]; omega)]

/-! ## writing -/

theorem write_of_encodable (h : Encodable content) :
    write files name content = .ok (files.set name (.of content h)) := by
  rw [write, dif_pos h]

/-- **What is written is stored**, and nothing else changes. -/
theorem write_eq_ok (h : write files name content = .ok files') :
    Encodable content ∧ Stored files' name content ∧
      ∀ other text, other ≠ name → Stored files other text → Stored files' other text := by
  unfold write at h
  split at h
  · rename_i hcontent
    obtain rfl := Except.ok.inj h
    refine ⟨hcontent, ⟨_, Dict.get?_set_self, rfl, rfl, hcontent⟩, ?_⟩
    intro other text hne ⟨file, hfile, hstored⟩
    exact ⟨file, by rw [Dict.get?_set_of_ne hne, hfile], hstored⟩
  · contradiction

theorem writeJson_of_encodable (files : Files) (name : Str) (h : Encodable content) :
    ∃ files', writeJson files name (some content) = .ok files' :=
  ⟨_, write_of_encodable (encodable_append.mpr ⟨h, by decide⟩)⟩

/-- **What is dumped has a text**, and its file leaves the others as they are. -/
theorem writeJson_eq_ok {dump : Option Str} (h : writeJson files name dump = .ok files') :
    (∃ content, dump = some content ∧ Encodable content) ∧
      ∀ other text, other ≠ name → Stored files other text → Stored files' other text := by
  cases dump with
  | none => contradiction
  | some content =>
      obtain ⟨hcontent, -, hkeep⟩ := write_eq_ok h
      exact ⟨⟨content, rfl, (encodable_append.mp hcontent).1⟩, hkeep⟩

/-- A literal has no surrogates. -/
theorem encodable_ascii (text : String) : Encodable (ascii text) := by
  intro c hc
  obtain ⟨char, -, rfl⟩ := List.mem_map.mp hc
  rw [isScalar_iff]
  have hvalid : char.toNat < 0xD800 ∨ 0xDFFF < char.toNat ∧ char.toNat < 0x110000 := char.valid
  omega

theorem encodable_jsonChar (c : Nat) : Encodable (jsonChar c) ↔ isScalar c = true := by
  have hescape : ∀ {text : Str}, Encodable text → c < 128 →
      (Encodable text ↔ isScalar c = true) := by
    intro text htext hc
    refine iff_of_true htext ?_
    rw [isScalar_iff]
    omega
  unfold jsonChar
  split
  · exact hescape (by decide) (by omega)
  · split
    · exact hescape (by decide) (by omega)
    · split
      · exact hescape (encodable_ascii _) (by omega)
      · split
        · exact hescape (encodable_ascii _) (by omega)
        · split
          · exact hescape (encodable_ascii _) (by omega)
          · split
            · exact hescape (encodable_ascii _) (by omega)
            · split
              · exact hescape (encodable_ascii _) (by omega)
              · split
                · exact hescape (encodable_append.mpr ⟨encodable_ascii _, encodable_ascii _⟩)
                    (by omega)
                · rw [PatchPaths.Encodable, List.forall_mem_singleton]

/-- **A JSON string can be encoded where its text can.** -/
theorem encodable_jsonString (text : Str) : Encodable (jsonString text) ↔ Encodable text := by
  have hquote : isScalar 34 = true := by decide
  rw [jsonString, PatchPaths.Encodable, List.forall_mem_cons, List.forall_mem_append,
    List.forall_mem_singleton, and_iff_right hquote, and_iff_left hquote]
  simp only [List.mem_flatMap]
  constructor
  · intro h c hc
    rw [← encodable_jsonChar]
    exact fun d hd => h d ⟨c, hc, hd⟩
  · intro h d hmem
    obtain ⟨c, hc, hd⟩ := hmem
    exact (encodable_jsonChar c).mpr (h c hc) d hd

/-- **The line of an entry with one pair** can be encoded where both paths can. -/
theorem encodable_line {e : IndexEntry} {pair : Str × Str} (hpaths : e.paths = [pair])
    (hname : Encodable e.diffPath) :
    Encodable e.line ↔ Encodable pair.1 ∧ Encodable pair.2 := by
  have hone : (ascii ", ").intercalate [pairText pair] = pairText pair := by
    rw [List.intercalate_singleton]
  rw [IndexEntry.line, hpaths, List.map_singleton, hone, pairText]
  simp only [encodable_append, encodable_ascii, encodable_jsonString, hname, true_and, and_true]

/-! ## the index of a patch -/

/-- The entries follow one another in the text, from an offset to its end. -/
def Consecutive (text : Str) : (offset : Nat) → List IndexEntry → Prop
  | offset, [] => offset = text.length
  | offset, e :: entries =>
      e.offset = offset ∧ offset + e.length ≤ text.length ∧
        Consecutive text (offset + e.length) entries

/-- The entry has the paths of the change and selects its block. -/
structure Selects (diff : Str) (diffPath : Str) (e : IndexEntry) (c : Change) : Prop where
  paths : e.paths = [c.entry]
  diffPath : e.diffPath = diffPath
  block : (diff.drop e.offset).take e.length = (c.lines true).flatten

theorem writePatch_cons (c : Change) (changes : List Change) :
    writePatch true (c :: changes) = (c.lines true).flatten ++ writePatch true changes := by
  rw [writePatch, List.flatMap_cons, List.flatten_append]
  rfl

theorem patchEntries_block (c : Change) : patchEntries (c.lines true).flatten = some [c.entry] := by
  have hone := patchEntries_writePatch [c]
  rwa [writePatch_cons, writePatch, List.flatMap_nil, List.flatten_nil, List.append_nil] at hone

/-- **The entries of a patch** select its blocks, one after the other. -/
theorem indexEntries_writePatch (diffPath before : Str) (changes : List Change) :
    ∃ entries,
      indexEntries diffPath before.length (changes.map (Change.lines true)) = some entries ∧
      List.Forall₂ (Selects (before ++ writePatch true changes) diffPath) entries changes ∧
      Consecutive (before ++ writePatch true changes) before.length entries := by
  induction changes generalizing before with
  | nil =>
      refine ⟨[], rfl, .nil, ?_⟩
      rw [writePatch, List.flatMap_nil, List.flatten_nil, List.append_nil]
      rfl
  | cons c changes ih =>
      obtain ⟨entries, hentries, hselects, hconsecutive⟩ := ih (before ++ (c.lines true).flatten)
      rw [List.length_append] at hentries hconsecutive
      rw [List.append_assoc, ← writePatch_cons] at hselects hconsecutive
      refine ⟨{ paths := [c.entry]
                binary := contains (ascii "GIT binary patch\n") (c.lines true).flatten
                diffPath, offset := before.length
                length := (c.lines true).flatten.length } :: entries,
        ?_, .cons ⟨rfl, rfl, ?_⟩ hselects, rfl, ?_, hconsecutive⟩
      · rw [List.map_cons, indexEntries, patchEntries_block, hentries]
        rfl
      · dsimp only
        rw [writePatch_cons, List.drop_left, List.take_left]
      · dsimp only
        rw [writePatch_cons, List.length_append, List.length_append]
        omega

/-! ## complete evidence -/

variable {candidate : Candidate} {changes : List Change}

/-- What is promised of the evidence of a candidate. -/
structure Complete (files : Files) (label : String) (diff : Str) (changes : List Change) : Prop where
  whole : Stored files (diffName label) diff
  index : ∃ entries, Stored files (indexName label) (entries.flatMap IndexEntry.line) ∧
    List.Forall₂ (Selects diff (diffName label)) entries changes ∧ Consecutive diff 0 entries
  registered : ∀ name file, files.get? name = some file → ∃ text, Stored files name text
  pages : ∀ name text, Stored files name text → ∀ limits : Nat → Nat, (∀ i, 1 ≤ limits i) →
    ∃ fuel pages, follow files name limits fuel 0 0 = some pages ∧ pages.flatten = text

/-- The paths of the changes are UTF-8, the dicts have dumps, and no text has a lone
surrogate. -/
structure Writable (candidate : Candidate) (changes : List Change) : Prop where
  diff : Encodable candidate.diff
  paths : ∀ c ∈ changes, IsUtf8 c.kind.oldPath.bytes ∧ IsUtf8 c.kind.newPath.bytes
  publicEvidence : ∃ text, candidate.publicEvidence = some text ∧ Encodable text
  report : ∃ text, candidate.report = some text ∧ Encodable text
  delivery : ∀ delivery, candidate.delivery = some delivery → Encodable delivery

theorem encodable_text (path : Path) : Encodable path.text ↔ IsUtf8 path.bytes :=
  encodable_decodeUtf8 path.small

/-- The paths of an entry can be encoded where those of the change are UTF-8. -/
theorem encodable_entry (c : Change) : Encodable c.entry.1 ∧ Encodable c.entry.2 ↔
    IsUtf8 c.kind.oldPath.bytes ∧ IsUtf8 c.kind.newPath.bytes := by
  rw [← encodable_text, ← encodable_text]
  obtain ⟨kind, before, after, content⟩ := c
  cases content with
  | none => rfl
  | binary data => rfl
  | text hunks =>
      cases kind with
      | add path => exact ⟨fun h => ⟨h.2, h.2⟩, fun h => ⟨encodable_nil, h.2⟩⟩
      | delete path => exact ⟨fun h => ⟨h.1, h.1⟩, fun h => ⟨h.1, encodable_nil⟩⟩
      | modify path => rfl
      | rename oldPath newPath => rfl

/-- The index can be encoded where all paths can. -/
theorem encodable_index {diff : Str} {entries : List IndexEntry}
    (h : List.Forall₂ (Selects diff (diffName label)) entries changes) :
    Encodable (entries.flatMap IndexEntry.line) ↔
      ∀ c ∈ changes, IsUtf8 c.kind.oldPath.bytes ∧ IsUtf8 c.kind.newPath.bytes := by
  have hname : Encodable (diffName label) :=
    encodable_append.mpr ⟨encodable_ascii _, encodable_ascii _⟩
  induction h with
  | nil => simp
  | cons hselects _ ih =>
      rw [List.flatMap_cons, encodable_append, List.forall_mem_cons,
        encodable_line hselects.paths (by rw [hselects.diffPath]; exact hname), encodable_entry]
      exact and_congr Iff.rfl ih

/-- The names of a candidate's files are different. -/
theorem name_ne {first second : String} (h : ascii first ≠ ascii second) :
    ascii label ++ ascii first ≠ ascii label ++ ascii second :=
  fun heq => h (List.append_cancel_left heq)

/-- The entries of the diff of a candidate. -/
theorem indexEntries_diff (label : String) (hdiff : candidate.diff = writePatch true changes) :
    ∃ entries, indexEntries (diffName label) 0 (splitPatchBlocks candidate.diff) = some entries ∧
      List.Forall₂ (Selects candidate.diff (diffName label)) entries changes ∧
      Consecutive candidate.diff 0 entries := by
  obtain ⟨entries, hentries, hselects, hconsecutive⟩ :=
    indexEntries_writePatch (diffName label) [] changes
  rw [List.nil_append, ← hdiff] at hselects
  rw [List.nil_append, ← hdiff] at hconsecutive
  refine ⟨entries, ?_, hselects, hconsecutive⟩
  rw [hdiff, splitPatchBlocks_writePatch]
  exact hentries

/-- **What is added is complete**, and everything in it could be written. -/
theorem addCandidate_spec {evidence : CandidateEvidence}
    (hdiff : candidate.diff = writePatch true changes)
    (h : addCandidate files label candidate = .ok (files', evidence)) :
    Writable candidate changes ∧ Complete files' label candidate.diff changes := by
  obtain ⟨entries, hentries, hselects, hconsecutive⟩ := indexEntries_diff label hdiff
  unfold addCandidate at h
  rw [hentries] at h
  obtain ⟨files₁, hwrite₁, h⟩ := bind_eq_ok.mp h
  obtain ⟨files₂, hwrite₂, h⟩ := bind_eq_ok.mp h
  obtain ⟨files₃, hwrite₃, h⟩ := bind_eq_ok.mp h
  obtain ⟨files₄, hwrite₄, h⟩ := bind_eq_ok.mp h
  obtain ⟨hencodable, hwhole, -⟩ := write_eq_ok hwrite₁
  obtain ⟨hindex, hindexed, hkeep₂⟩ := write_eq_ok hwrite₂
  obtain ⟨hrecords, hkeep₃⟩ := writeJson_eq_ok hwrite₃
  obtain ⟨hreport, hkeep₄⟩ := writeJson_eq_ok hwrite₄
  rw [encodable_index hselects] at hindex
  have hwhole₄ := hkeep₄ _ _ (name_ne (by decide)) (hkeep₃ _ _ (name_ne (by decide))
    (hkeep₂ _ _ (name_ne (by decide)) hwhole))
  have hindexed₄ := hkeep₄ _ _ (name_ne (by decide)) (hkeep₃ _ _ (name_ne (by decide)) hindexed)
  have hcomplete : ∀ {files : Files}, Stored files (diffName label) candidate.diff →
      Stored files (indexName label) (entries.flatMap IndexEntry.line) →
      Complete files label candidate.diff changes := by
    intro files hstored hstoredIndex
    exact ⟨hstored, ⟨entries, hstoredIndex, hselects, hconsecutive⟩,
      fun name file hfile => exists_stored hfile,
      fun name text htext limits hlimits => follow_stored htext hlimits 0 (Nat.zero_le _)⟩
  have hwritable : (∀ delivery, candidate.delivery = some delivery → Encodable delivery) →
      Writable candidate changes := fun hdelivery =>
    ⟨hencodable, hindex, hrecords, hreport, hdelivery⟩
  cases hdelivery : candidate.delivery with
  | none =>
      rw [hdelivery] at h hwritable
      obtain ⟨rfl, -⟩ := Prod.mk.inj (Except.ok.inj h)
      exact ⟨hwritable (fun _ hnone => absurd hnone (by simp)), hcomplete hwhole₄ hindexed₄⟩
  | some delivery =>
      rw [hdelivery] at h hwritable
      obtain ⟨files₅, hwrite₅, h⟩ := bind_eq_ok.mp h
      obtain ⟨rfl, -⟩ := Prod.mk.inj (Except.ok.inj h)
      obtain ⟨hencodable₅, -, hkeep₅⟩ := write_eq_ok hwrite₅
      refine ⟨hwritable ?_, hcomplete (hkeep₅ _ _ (name_ne (by decide)) hwhole₄)
        (hkeep₅ _ _ (name_ne (by decide)) hindexed₄)⟩
      intro found hfound
      rw [← Option.some.inj hfound]
      exact hencodable₅

/-- **What can be written is added.** -/
theorem addCandidate_of_writable (files : Files) (label : String)
    (hdiff : candidate.diff = writePatch true changes) (h : Writable candidate changes) :
    ∃ files' evidence, addCandidate files label candidate = .ok (files', evidence) := by
  obtain ⟨entries, hentries, hselects, -⟩ := indexEntries_diff label hdiff
  have hindex := (encodable_index hselects).mpr h.paths
  obtain ⟨records, hrecords, hrecordsText⟩ := h.publicEvidence
  obtain ⟨report, hreport, hreportText⟩ := h.report
  unfold addCandidate
  rw [write_of_encodable h.diff, hentries, hrecords, hreport]
  obtain ⟨files₃, hwrite₃⟩ := writeJson_of_encodable
    ((files.set (diffName label) (.of _ h.diff)).set (indexName label) (.of _ hindex))
    (recordsName label) hrecordsText
  obtain ⟨files₄, hwrite₄⟩ := writeJson_of_encodable files₃ (resultName label) hreportText
  simp only [write_of_encodable hindex, hwrite₃, hwrite₄, bind, Except.bind]
  cases hdelivery : candidate.delivery with
  | none => exact ⟨_, _, rfl⟩
  | some delivery =>
      simp only [write_of_encodable (h.delivery delivery hdelivery)]
      exact ⟨_, _, rfl⟩

/-- **The evidence of a patch is added and complete** exactly where its paths are UTF-8,
its dicts have dumps and no text has a lone surrogate. -/
theorem evidence_complete_iff (files : Files) (label : String) (changes : List Change)
    (delivery : Option Str) (publicEvidence report : Option Str) :
    (∃ files' evidence,
      addCandidate files label
          { diff := writePatch true changes, delivery, publicEvidence, report } =
          .ok (files', evidence) ∧
        Complete files' label (writePatch true changes) changes) ↔
      Writable { diff := writePatch true changes, delivery, publicEvidence, report } changes := by
  constructor
  · intro ⟨files', evidence, hadd, _⟩
    exact (addCandidate_spec rfl hadd).1
  · intro h
    obtain ⟨files', evidence, hadd⟩ := addCandidate_of_writable files label rfl h
    exact ⟨files', evidence, hadd, (addCandidate_spec rfl hadd).2⟩

theorem regularMode_oneLine : 10 ∉ ascii "100644" := by
  decide

/-- The mode of a file is changed whose name is the byte `0xFF`. -/
def changedMode : Change where
  kind := .modify ⟨[0xFF], by decide, by decide⟩
  before := [⟨"old mode ", by decide, ascii "100644", regularMode_oneLine⟩,
    ⟨"new mode ", by decide, ascii "100755", by decide⟩]
  after := []
  content := .none

/-- **A path that is not UTF-8 raises** out of the index. -/
theorem changedMode_raises :
    ¬∃ files' evidence,
      addCandidate .empty "A"
          { diff := writePatch true [changedMode], delivery := none
            publicEvidence := some (ascii "null"), report := some (ascii "null") } =
          .ok (files', evidence) ∧
        Complete files' "A" (writePatch true [changedMode]) [changedMode] := by
  intro ⟨files', evidence, hadd, _⟩
  have hpath := ((addCandidate_spec rfl hadd).1.paths changedMode (List.mem_singleton_self _)).1
  rw [← encodable_decodeUtf8 (by decide)] at hpath
  revert hpath
  decide

end OpenCollab.Evidence
