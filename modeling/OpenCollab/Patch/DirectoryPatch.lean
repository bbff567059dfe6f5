import OpenCollab.Patch.Utf8
import OpenCollab.Patch.WrittenPatch

/-!
# OpenCollab.Patch.DirectoryPatch

The patch of a directory that is no repository (`adapters/_git_patch_bytes.py`): Git
compares two copies of it, and the names of the copies are taken out of the headers.

A header without quotes is split where the endpoints agree.  Within the first path they
never do, since what would be the second endpoint is longer than the path.

* `directoryPatchPath_join` — the name of a copy is taken out of a token;
* `rewriteHeader_join` — and out of a header;
* `rewriteBlock_located` — a block is rewritten to that of the bare path;
* `directory_patch_rewritten` — so is a patch, byte for byte.
-/

namespace OpenCollab.PatchPaths

open Lib

/-! ## the rewriting -/

/-- The loop of `_directory_patch_path` over the directories. -/
def stripDirectory (start : Nat) (token side : Str) : List Str → Str
  | [] => token
  | directory :: directories =>
      let front := side ++ ascii "/" ++ directory ++ ascii "/"
      if front.isPrefixOf (token.drop start) then
        token.take start ++ (side ++ ascii "/") ++ token.drop (start + front.length)
      else stripDirectory start token side directories

/-- `_directory_patch_path`. -/
def directoryPatchPath (token side : Str) (directories : List Str) : Str :=
  stripDirectory (if token.head? = some quote then 1 else 0) token side directories

/-- `text.removesuffix("\n")`. -/
def removeNewline (text : Str) : Str := if text.getLast? = some 10 then text.dropLast else text

/-- `posixpath.basename`. -/
def basename (path : Str) : Str := (path.reverse.takeWhile (· ≠ 47)).reverse

/-- The stripped endpoints of a header that is split at a place agree; `none`: an escape
in a path is no byte, and the call raises. -/
def agreeAt (directories : List Str) (header : Str) (separator : Nat) : Option Bool := do
  let old := directoryPatchPath (header.take separator) (ascii "a") directories
  let new := directoryPatchPath (header.drop (separator + 1)) (ascii "b") directories
  return (← gitDiffEndpoint old (ascii "a")) = (← gitDiffEndpoint new (ascii "b"))

/-- The loop over the places of `" b/"` in a header that is not quoted: the first one at
which the endpoints agree. -/
def splitHeader (directories : List Str) (header : Str) : List Nat → Option (Option (List Str))
  | [] => some none
  | separator :: separators => do
      if ← agreeAt directories header separator then
        some (some [header.take separator, header.drop (separator + 1)])
      else splitHeader directories header separators

/-- The tokens of the first line of a block. -/
def directoryTokens (directories : List Str) (first : Str) : Option (List Str) :=
  let tokens := gitHeaderTokens first
  let header := removeNewline (first.drop diffHeader.length)
  if header.head? = some quote then some tokens
  else (splitHeader directories header (occurrences (ascii " b/") header 0)).map (·.getD tokens)

/-- The first line of a block, rewritten. -/
def rewriteHeader (directories : List Str) (first : Str) : Option Str :=
  (directoryTokens directories first).map fun tokens =>
    match tokens with
    | [old, new] =>
        diffHeader ++ directoryPatchPath old (ascii "a") directories ++ [32] ++
          directoryPatchPath new (ascii "b") directories ++
          (if first.getLast? = some 10 then [10] else [])
    | _ => first

/-- The line at which the rewriting of a block stops. -/
def stops (line : Str) : Bool := startsWithAny ["@@", "GIT binary patch", "Binary files "] line

/-- The loop over the lines behind the first. -/
def rewriteLines (directories : List Str) : List Str → List Str
  | [] => []
  | line :: lines =>
      if stops line then line :: lines
      else if startsWithAny ["--- ", "+++ "] line then
        let side := ascii (if startsWithAny ["--- "] line then "a" else "b")
        (line.take 4 ++ directoryPatchPath (line.drop 4) side directories) ::
          rewriteLines directories lines
      else line :: rewriteLines directories lines

def rewriteBlock (directories : List Str) : List Str → Option (List Str)
  | [] => some []
  | first :: lines =>
      if diffHeader.isPrefixOf first then
        (rewriteHeader directories first).map (· :: rewriteLines directories lines)
      else some (first :: lines)

/-- `_directory_patch_bytes` on the decoded text. -/
def directoryPatchText (directories : List Str) (text : Str) : Option Str :=
  ((splitPatchBlocks text).mapM (rewriteBlock directories)).map fun blocks => blocks.flatten.flatten

/-- `_directory_patch_bytes`; `none`: the call raises. -/
def directoryPatchBytes (payload : List Nat) (before after : Str) : Option (List Nat) := do
  encodeUtf8 (← directoryPatchText [basename before, basename after] (decodeUtf8 0 payload))

/-! ## changes between two directories -/

/-- The base name of a directory. -/
structure BaseName where
  bytes : List Nat
  nonempty : bytes ≠ []
  asciiOnly : ∀ b ∈ bytes, b < 128
  noSlash : 47 ∉ bytes

/-- Git writes the name as it is, and no space in it calls for a tab. -/
def BaseName.Unquoted (name : BaseName) : Prop := ∀ b ∈ name.bytes, isPlain b = true ∧ b ≠ 32

instance (name : BaseName) : Decidable name.Unquoted :=
  inferInstanceAs (Decidable (∀ b ∈ name.bytes, isPlain b = true ∧ b ≠ 32))

/-- A path below a directory. -/
def BaseName.join (name : BaseName) (path : Path) : Path where
  bytes := name.bytes ++ ascii "/" ++ path.bytes
  nonempty := List.append_ne_nil_of_right_ne_nil _ path.nonempty
  small := by
    have hslash : ∀ b ∈ ascii "/", b < 256 := by decide
    intro b hb
    rw [List.mem_append, List.mem_append] at hb
    obtain (hb | hb) | hb := hb
    · have := name.asciiOnly b hb
      omega
    · exact hslash b hb
    · exact path.small b hb

/-- What becomes of a file: a change of its type is a deletion and an addition. -/
inductive TreeKind where
  | add
  | delete
  | modify

/-- The lines that hold the content of a change. -/
def Content.lines : Content → List Str
  | .none => []
  | .text hunks => hunks.flatMap Hunk.lines
  | .binary data => data.lines

/-- The change of a file below two directories that are compared with `--binary` and
without renames. -/
structure TreeChange where
  kind : TreeKind
  path : Path
  extended : List Extended
  content : Content
  written : ∀ data, content = .binary data → data.keyword = "GIT binary patch"
  small : ∀ line ∈ extended.map Extended.line ++ content.lines, ∀ b ∈ line, b < 256

/-- The change of the bare path. -/
def TreeKind.bare (path : Path) : TreeKind → Kind
  | .add => .add path
  | .delete => .delete path
  | .modify => .modify path

/-- The change as the comparison of the directories has it: the path is below the one in
which the file exists. -/
def TreeKind.located (before after : BaseName) (path : Path) : TreeKind → Kind
  | .add => .add (after.join path)
  | .delete => .delete (before.join path)
  | .modify => .rename (before.join path) (after.join path)

/-- The lines of a change, without those of a rename. -/
def pairLines (kind : Kind) (extended : List Extended) (content : Content) : List Str :=
  writeHeader kind.oldPath kind.newPath ::
    (extended.map Extended.line ++ contentLines true kind content)

/-- The lines that Git writes when it compares the directories. -/
def TreeChange.noIndexLines (before after : BaseName) (c : TreeChange) : List Str :=
  pairLines (c.kind.located before after c.path) c.extended c.content

/-- `git diff --no-index` of two directories. -/
def noIndexPatch (before after : BaseName) (changes : List TreeChange) : List Nat :=
  (changes.flatMap (TreeChange.noIndexLines before after)).flatten

/-- The same change of the bare path. -/
def TreeChange.bare (c : TreeChange) : Change where
  kind := c.kind.bare c.path
  before := c.extended
  after := []
  content := c.content

/-- The patch that Git writes for the bare paths. -/
def barePatch (changes : List TreeChange) : List Nat :=
  writePatch true (changes.map TreeChange.bare)

/-! ## separators -/

/-- Two texts that are split at their first separator. -/
theorem append_cons_inj_of_not_mem {x : Nat} {a b rest rest' : Str} (ha : x ∉ a) (hb : x ∉ b)
    (h : a ++ x :: rest = b ++ x :: rest') : a = b ∧ rest = rest' := by
  induction a generalizing b with
  | nil =>
      cases b with
      | nil => exact ⟨rfl, (List.cons.inj h).2⟩
      | cons c b =>
          obtain ⟨rfl, -⟩ := List.cons.inj h
          exact absurd List.mem_cons_self hb
  | cons c a ih =>
      cases b with
      | nil =>
          obtain ⟨rfl, -⟩ := List.cons.inj h
          exact absurd List.mem_cons_self ha
      | cons d b =>
          rw [List.mem_cons, not_or] at ha hb
          obtain ⟨rfl, htail⟩ := List.cons.inj h
          obtain ⟨rfl, hrest⟩ := ih ha.2 hb.2 htail
          exact ⟨rfl, hrest⟩

theorem ascii_slash : ascii "/" = [47] := by decide

/-! ## tokens -/

section Tokens

variable {second : Bool} {name : BaseName} {path : Path} {directories : List Str} {side : Str}

/-- **The directory that a path is below of is stripped.** -/
theorem stripDirectory_below {lead name rest : Str} (hmem : name ∈ directories)
    (hslash : ∀ d ∈ directories, 47 ∉ d) :
    stripDirectory lead.length (lead ++ (side ++ ascii "/" ++ name ++ ascii "/" ++ rest)) side
      directories = lead ++ (side ++ ascii "/") ++ rest := by
  induction directories with
  | nil => contradiction
  | cons d directories ih =>
      have hdrop : (lead ++ (side ++ ascii "/" ++ name ++ ascii "/" ++ rest)).drop lead.length =
          side ++ ascii "/" ++ name ++ ascii "/" ++ rest := List.drop_left
      have hname := hslash name hmem
      rw [List.forall_mem_cons] at hslash
      simp only [stripDirectory, hdrop]
      by_cases hd : d = name
      · rw [if_pos, hd, ← List.drop_drop, hdrop, List.drop_left, List.take_left]
        rw [hd, List.isPrefixOf_iff_prefix]
        exact List.prefix_append _ _
      · rw [if_neg]
        · exact ih (List.mem_of_ne_of_mem (Ne.symm hd) hmem) hslash.2
        · intro hfront
          rw [List.isPrefixOf_iff_prefix] at hfront
          obtain ⟨more, hmore⟩ := hfront
          simp only [List.append_assoc, List.append_cancel_left_eq, ascii_slash, List.cons_append,
            List.nil_append] at hmore
          have hcons := (List.cons.inj hmore).2
          exact hd (append_cons_inj_of_not_mem hslash.1 hname hcons).1

/-- A path that begins otherwise is kept. -/
theorem stripDirectory_of_differ {start : Nat} {token : Str} (hside : side ≠ [])
    (h : (token.drop start).head? ≠ side.head?) :
    stripDirectory start token side directories = token := by
  induction directories with
  | nil => rfl
  | cons d directories ih =>
      simp only [stripDirectory]
      rw [if_neg, ih]
      intro hfront
      rw [List.isPrefixOf_iff_prefix] at hfront
      obtain ⟨more, hmore⟩ := hfront
      obtain ⟨c, side', rfl⟩ := List.exists_cons_of_ne_nil hside
      rw [← hmore] at h
      exact h rfl

/-- What is stripped of a path stands in front of its first space. -/
theorem stripDirectory_space (side front rest : Str) (hspace : ∀ d ∈ directories, 32 ∉ d) :
    ∃ kept, rest.length < kept.length ∧ kept <:+ front ++ 32 :: rest ∧
      stripDirectory 0 (side ++ ascii "/" ++ (front ++ 32 :: rest)) side directories =
        side ++ ascii "/" ++ kept := by
  induction directories with
  | nil =>
      refine ⟨front ++ 32 :: rest, ?_, List.suffix_refl _, rfl⟩
      rw [List.length_append, List.length_cons]
      omega
  | cons d directories ih =>
      rw [List.forall_mem_cons] at hspace
      simp only [stripDirectory, List.drop_zero, Nat.zero_add, List.take_zero, List.nil_append]
      split
      · rename_i hfront
        rw [List.isPrefixOf_iff_prefix] at hfront
        obtain ⟨more, hmore⟩ := hfront
        have hsplit : d ++ ascii "/" ++ more = front ++ 32 :: rest := by
          simpa only [List.append_assoc, List.append_cancel_left_eq] using hmore
        rw [← hmore, List.drop_left]
        refine ⟨more, ?_, ⟨_, hsplit⟩, rfl⟩
        obtain ⟨inner, hinner, hrest⟩ | ⟨outer, houter, hmore'⟩ :=
          List.append_eq_append_iff.mp hsplit
        · rw [hrest, List.length_append, List.length_cons]
          omega
        · cases outer with
          | nil =>
              rw [List.nil_append] at hmore'
              rw [← hmore', List.length_cons]
              omega
          | cons c outer =>
              obtain ⟨rfl, -⟩ := List.cons.inj hmore'
              have hmem : 32 ∈ d ++ ascii "/" := by
                rw [houter]
                exact List.mem_append_right _ List.mem_cons_self
              rw [List.mem_append, ascii_slash, List.mem_singleton] at hmem
              obtain hmem | hmem := hmem
              · exact absurd hmem hspace.1
              · omega
      · exact ih hspace.2

/-- The path of a side below a directory, and without it: what stands in front, and what
behind. -/
theorem token_join (hname : name.Unquoted) (second : Bool) (path : Path) :
    ∃ lead rest, (lead = [] ∧ path.bytes.all isPlain = true ∧ rest = path.bytes ∨
        lead = [quote] ∧ ¬path.bytes.all isPlain = true) ∧
      token second (name.join path) =
        lead ++ (sideOf second ++ ascii "/" ++ name.bytes ++ ascii "/" ++ rest) ∧
      token second path = lead ++ (sideOf second ++ ascii "/") ++ rest := by
  have hescape : ∀ b < 127, isPlain b = true → escapeByte b = [b] := by decide
  have hall : ∀ {bytes : List Nat}, bytes.all isPlain = true →
      bytes.flatMap escapeByte = bytes := by
    intro bytes hbytes
    induction bytes with
    | nil => rfl
    | cons b bytes ih =>
        rw [List.all_cons, Bool.and_eq_true] at hbytes
        have hb := (isPlain_iff.mp hbytes.1).1.2
        rw [List.flatMap_cons, hescape b hb hbytes.1, ih hbytes.2, List.singleton_append]
  have hslash : (ascii "/").all isPlain = true := by decide
  have hside : (sideOf second).all isPlain = true := by
    cases second <;> decide
  have hplain : name.bytes.all isPlain = true :=
    List.all_eq_true.mpr fun b hb => (hname b hb).1
  have hjoin : (name.join path).bytes.all isPlain = path.bytes.all isPlain := by
    rw [BaseName.join, List.all_append, List.all_append, hplain, hslash, Bool.true_and,
      Bool.true_and]
  by_cases hpath : path.bytes.all isPlain = true
  · refine ⟨[], path.bytes, .inl ⟨rfl, hpath, rfl⟩, ?_, ?_⟩
    · rw [token_plain (hjoin.trans hpath), BaseName.join]
      simp only [List.append_assoc, List.nil_append]
    · rw [token_plain hpath, List.nil_append]
  · refine ⟨[quote], path.bytes.flatMap escapeByte ++ [quote], .inr ⟨rfl, hpath⟩, ?_, ?_⟩
    · rw [token_quoted _ (by rw [hjoin]; exact hpath), BaseName.join]
      simp only [List.flatMap_append, hall hplain, hall hslash, hall hside]
      simp only [List.append_assoc, List.cons_append, List.nil_append]
    · rw [token_quoted _ hpath]
      simp only [List.flatMap_append, hall hslash, hall hside]
      simp only [List.append_assoc, List.cons_append, List.nil_append]

theorem token_join_plain (second : Bool) (hname : name.Unquoted)
    (hplain : path.bytes.all isPlain = true) :
    token second (name.join path) =
      sideOf second ++ ascii "/" ++ name.bytes ++ ascii "/" ++ path.bytes := by
  obtain ⟨lead, rest, ⟨rfl, -, rfl⟩ | ⟨-, hquoted⟩, hjoin, -⟩ := token_join hname second path
  · rw [hjoin, List.nil_append]
  · exact absurd hplain hquoted

theorem sideOf_ne_nil (second : Bool) : sideOf second ≠ [] := by
  cases second <;> decide

theorem directoryPatchPath_below (second : Bool) {lead name : Str} (rest : Str)
    (hlead : lead = [] ∨ lead = [quote]) (hmem : name ∈ directories)
    (hslash : ∀ d ∈ directories, 47 ∉ d) :
    directoryPatchPath (lead ++ (sideOf second ++ ascii "/" ++ name ++ ascii "/" ++ rest))
      (sideOf second) directories = lead ++ (sideOf second ++ ascii "/") ++ rest := by
  have hstart : (if (lead ++ (sideOf second ++ ascii "/" ++ name ++ ascii "/" ++ rest)).head? =
      some quote then 1 else 0) = lead.length := by
    obtain rfl | rfl := hlead
    · cases second <;> rfl
    · rfl
  rw [directoryPatchPath, hstart, stripDirectory_below hmem hslash]

/-- **The token of a path below a directory is rewritten to the token of the path**, with
what follows it. -/
theorem directoryPatchPath_join (second : Bool) (path : Path) (hname : name.Unquoted)
    (hmem : name.bytes ∈ directories) (hslash : ∀ d ∈ directories, 47 ∉ d) (extra : Str) :
    directoryPatchPath (token second (name.join path) ++ extra) (sideOf second) directories =
      token second path ++ extra := by
  obtain ⟨lead, rest, hlead, hjoin, hpath⟩ := token_join hname second path
  have hlead : lead = [] ∨ lead = [quote] := hlead.imp And.left And.left
  have hstrip := directoryPatchPath_below second (rest ++ extra) hlead hmem hslash
  rw [hjoin, hpath]
  simp only [List.append_assoc] at hstrip ⊢
  exact hstrip

theorem directoryPatchPath_null (extra : Str) :
    directoryPatchPath (ascii "/dev/null" ++ extra) (sideOf second) directories =
      ascii "/dev/null" ++ extra := by
  have hhead : (ascii "/dev/null").head? = some 47 := by decide
  have hnull : (ascii "/dev/null" ++ extra).head? = some 47 := by
    rw [List.head?_append, hhead]
    rfl
  rw [directoryPatchPath, hnull, if_neg (by decide)]
  refine stripDirectory_of_differ (sideOf_ne_nil second) ?_
  rw [List.drop_zero, hnull]
  cases second <;> decide

/-- The endpoint of a path without quotes. -/
theorem gitDiffEndpoint_plain {bytes : Str} (h : bytes.all isPlain = true) (second : Bool) :
    gitDiffEndpoint (sideOf second ++ ascii "/" ++ bytes) (sideOf second) = some bytes := by
  have hside : ∀ second, (sideOf second ++ ascii "/").all isPlain = true := by decide
  have hplain : (sideOf second ++ ascii "/" ++ bytes).all isPlain = true := by
    rw [List.all_append, hside, h]
    rfl
  have hsmall : ∀ b ∈ sideOf second ++ ascii "/" ++ bytes, b < 128 := by
    intro b hb
    have := (isPlain_iff.mp (List.all_eq_true.mp hplain b hb)).1
    omega
  have hdecode := decodeUtf8_ascii_append hsmall []
  have hwrite : writePath (sideOf second ++ ascii "/" ++ bytes) =
      sideOf second ++ ascii "/" ++ bytes := by
    rw [writePath, if_pos hplain]
  have hbyte : ∀ b ∈ sideOf second ++ ascii "/" ++ bytes, b < 256 := by
    intro b hb
    have := hsmall b hb
    omega
  have hpath := decodeGitCPath_writePath hbyte
  have hnull : ¬sideOf second ++ ascii "/" ++ bytes = ascii "/dev/null" := by
    have hhead : ascii "/dev/null" = 47 :: ascii "dev/null" := by decide
    rw [hhead]
    intro h
    cases second <;> exact absurd (List.cons.inj h).1 (by decide)
  rw [List.append_nil, decodeUtf8, List.append_nil] at hdecode
  rw [hwrite, hdecode] at hpath
  rw [gitDiffEndpoint, hpath, Option.map_some, if_neg hnull,
    if_pos (List.isPrefixOf_iff_prefix.mpr (List.prefix_append _ _)), List.drop_left]

end Tokens

/-! ## headers -/

/-- The header is split at the first place at which the endpoints agree. -/
theorem splitHeader_eq {directories : List Str} {header : Str} {separators : List Nat} {k : Nat}
    (hsorted : separators.Pairwise (· < ·)) (hk : k ∈ separators)
    (hagree : agreeAt directories header k = some true)
    (hbefore : ∀ s ∈ separators, s < k → agreeAt directories header s = some false) :
    splitHeader directories header separators =
      some (some [header.take k, header.drop (k + 1)]) := by
  induction separators with
  | nil => contradiction
  | cons s separators ih =>
      rw [List.pairwise_cons] at hsorted
      rw [List.forall_mem_cons] at hbefore
      rw [splitHeader]
      obtain rfl | hk := List.mem_cons.mp hk
      · rw [hagree]
        rfl
      · rw [hbefore.1 (hsorted.1 k hk)]
        exact ih hsorted.2 hk hbefore.2

theorem pairwise_occurrences (block xs : Str) (lo : Nat) :
    (occurrences block xs lo).Pairwise (· < ·) :=
  List.Pairwise.filter _ List.pairwise_lt_range'

section Header

variable {directories : List Str} {first last : BaseName} {path : Path}

/-- A place of `" b/"` within the first path splits that path. -/
theorem split_of_occurs {front rest back : Str} {s : Nat} (hfront : 32 ∉ front)
    (hs : Occurs (ascii " b/") (front ++ rest ++ 32 :: back) s) (hlt : s < (front ++ rest).length) :
    ∃ q x, rest = q ++ ascii " b/" ++ x ∧
      (front ++ rest ++ 32 :: back).take s = front ++ q ∧
      (front ++ rest ++ 32 :: back).drop (s + 1) = ascii "b/" ++ (x ++ 32 :: back) := by
  have hlen : ((front ++ rest ++ 32 :: back).take s).length = s := by
    rw [List.length_take, List.length_append]
    omega
  have hsplit := hs.eq_append (Nat.zero_le s)
  rw [List.drop_zero, Nat.sub_zero] at hsplit
  generalize hleft : (front ++ rest ++ 32 :: back).take s = left at hsplit hlen ⊢
  generalize (front ++ rest ++ 32 :: back).drop (s + (ascii " b/").length) = right at hsplit
  have hmark : ascii " b/" = [32, 98, 47] := by decide
  have hmark' : ascii "b/" = [98, 47] := by decide
  rw [hmark] at hsplit
  rw [hsplit, List.append_assoc, ← hlen, ← List.drop_drop, List.drop_left, hmark, hmark']
  rw [List.append_assoc left] at hsplit
  obtain ⟨w, hw, -⟩ | ⟨w, hw, hback⟩ := List.append_eq_append_iff.mp hsplit
  · -- the first path would end in front of the place
    have := congrArg List.length hw
    rw [List.length_append, hlen] at this
    omega
  · -- what the first path has behind `left` begins with the place
    obtain ⟨x, rfl, hright⟩ : ∃ x, w = [32, 98, 47] ++ x ∧ right = x ++ 32 :: back := by
      obtain _ | ⟨a, _ | ⟨b, _ | ⟨c, x⟩⟩⟩ := w
      · have := congrArg List.length hw
        rw [List.append_nil, hlen] at this
        omega
      · simp at hback
      · simp at hback
      · simp only [List.cons_append, List.nil_append, List.cons.injEq] at hback
        obtain ⟨rfl, rfl, rfl, hback⟩ := hback
        exact ⟨x, rfl, hback⟩
    rw [hright]
    obtain ⟨q, hq, hrest⟩ | ⟨q, hq, hrest⟩ := List.append_eq_append_iff.mp hw
    · refine ⟨q, x, ?_, hq, rfl⟩
      rw [hrest, List.append_assoc]
    · cases q with
      | nil => exact ⟨[], x, hrest.symm, by rw [hq, List.append_nil, List.append_nil], rfl⟩
      | cons c q =>
          obtain ⟨rfl, -⟩ := List.cons.inj hrest
          refine absurd ?_ hfront
          rw [hq]
          exact List.mem_append_right _ List.mem_cons_self

/-- The text of a header of two tokens. -/
def headerText (oldPath newPath : Path) : Str := token false oldPath ++ 32 :: token true newPath

theorem removeNewline_header (oldPath newPath : Path) :
    removeNewline ((writeHeader oldPath newPath).drop diffHeader.length) =
      headerText oldPath newPath ∧ (writeHeader oldPath newPath).getLast? = some 10 := by
  have hdrop : (writeHeader oldPath newPath).drop diffHeader.length =
      headerText oldPath newPath ++ [10] := by
    rw [writeHeader, headerText]
    simp only [List.append_assoc, List.drop_left, List.cons_append, List.nil_append]
  refine ⟨?_, ?_⟩
  · rw [hdrop, removeNewline, List.getLast?_concat, if_pos rfl, List.dropLast_concat]
  · rw [writeHeader, List.getLast?_concat]

variable (hfirst : first.Unquoted) (hlast : last.Unquoted) (hmemFirst : first.bytes ∈ directories)
  (hmemLast : last.bytes ∈ directories) (hslash : ∀ d ∈ directories, 47 ∉ d)
  (hspace : ∀ d ∈ directories, 32 ∉ d)

include hfirst hlast hmemFirst hmemLast hslash

/-- At the end of the first path the endpoints agree. -/
theorem agreeAt_end (path : Path) :
    agreeAt directories (headerText (first.join path) (last.join path))
      (token false (first.join path)).length = some true := by
  have hold := directoryPatchPath_join false path hfirst hmemFirst hslash []
  have hnew := directoryPatchPath_join true path hlast hmemLast hslash []
  have holdEnd : gitDiffEndpoint (token false path) (sideOf false) = some path.text :=
    gitDiffEndpoint_token
  have hnewEnd : gitDiffEndpoint (token true path) (sideOf true) = some path.text :=
    gitDiffEndpoint_token
  rw [List.append_nil, List.append_nil] at hold hnew
  rw [agreeAt, headerText, List.take_left, ← List.drop_drop, List.drop_left, List.drop_one,
    List.tail_cons, show ascii "a" = sideOf false from rfl, show ascii "b" = sideOf true from rfl,
    hold, hnew, holdEnd, hnewEnd]
  simp

include hspace

omit hmemLast in
/-- **Within the first path the endpoints do not agree**: what the second one has is longer
than the first path. -/
theorem agreeAt_within (hplain : path.bytes.all isPlain = true) {s : Nat}
    (hs : s ∈ occurrences (ascii " b/") (headerText (first.join path) (last.join path)) 0)
    (hlt : s < (token false (first.join path)).length) :
    agreeAt directories (headerText (first.join path) (last.join path)) s = some false := by
  have hold := token_join_plain false hfirst hplain
  have hnew := token_join_plain true hlast hplain
  have hfront : 32 ∉ sideOf false ++ ascii "/" ++ first.bytes ++ ascii "/" := by
    have hside : 32 ∉ sideOf false ∧ 32 ∉ ascii "/" := by decide
    simp only [List.mem_append, not_or]
    exact ⟨⟨hside, hspace _ hmemFirst⟩, hside.2⟩
  have hheader : headerText (first.join path) (last.join path) =
      sideOf false ++ ascii "/" ++ first.bytes ++ ascii "/" ++ path.bytes ++
        32 :: token true (last.join path) := by
    rw [headerText, hold]
  rw [hheader] at hs ⊢
  rw [hold] at hlt
  obtain ⟨q, x, hpath, htake, hdrop⟩ := split_of_occurs hfront (mem_occurrences.mp hs).2 hlt
  have hq : q.all isPlain = true ∧ x.all isPlain = true := by
    rw [hpath, List.all_append, List.all_append, Bool.and_eq_true, Bool.and_eq_true] at hplain
    exact ⟨hplain.1.1, hplain.2⟩
  have hleft := directoryPatchPath_below false q (.inl rfl) hmemFirst hslash
  obtain ⟨kept, hlong, hsuffix, hright⟩ := stripDirectory_space (sideOf true) x
    (token true (last.join path)) hspace
  have hkept : kept.all isPlain = true := by
    have hback : (x ++ 32 :: token true (last.join path)).all isPlain = true := by
      have hside : (sideOf true).all isPlain = true := by decide
      have hslash : (ascii "/").all isPlain = true := by decide
      have hspace : isPlain 32 = true := by decide
      have hname : last.bytes.all isPlain = true :=
        List.all_eq_true.mpr fun b hb => (hlast b hb).1
      rw [hnew]
      simp only [List.all_append, List.all_cons, hside, hslash, hspace, hname, hplain, hq.2,
        Bool.and_self]
    exact List.all_eq_true.mpr fun b hb => List.all_eq_true.mp hback b (hsuffix.subset hb)
  have hne : q ≠ kept := by
    intro hqk
    have hlenPath := congrArg List.length hpath
    rw [hnew] at hlong
    simp only [List.length_append] at hlenPath hlong
    rw [hqk] at hlenPath
    omega
  have hmark : ascii "b/" = sideOf true ++ ascii "/" := by decide
  have hpatch : directoryPatchPath (ascii "b/" ++ (x ++ 32 :: token true (last.join path)))
      (sideOf true) directories = sideOf true ++ ascii "/" ++ kept := by
    have hhead : (ascii "b/" ++ (x ++ 32 :: token true (last.join path))).head? ≠ some quote := by
      rw [hmark]
      exact fun h => absurd (Option.some.inj h) (by decide)
    rw [directoryPatchPath, if_neg hhead, hmark, hright]
  rw [List.nil_append, List.nil_append] at hleft
  rw [agreeAt, htake, hdrop, show ascii "a" = sideOf false from rfl,
    show ascii "b" = sideOf true from rfl, hleft, hpatch]
  simp only [gitDiffEndpoint_plain hq.1, gitDiffEndpoint_plain hkept, Option.bind_eq_bind,
    Option.bind_some, Option.pure_def, Option.some.injEq, decide_eq_false_iff_not]
  exact hne

/-- The tokens of such a header. -/
theorem directoryTokens_join :
    directoryTokens directories (writeHeader (first.join path) (last.join path)) =
      some [token false (first.join path), token true (last.join path)] := by
  rw [directoryTokens, (removeNewline_header _ _).1]
  by_cases hplain : path.bytes.all isPlain = true
  · have hold := token_join_plain false hfirst hplain
    have hnew := token_join_plain true hlast hplain
    have hhead : (headerText (first.join path) (last.join path)).head? ≠ some quote := by
      rw [headerText, hold]
      exact fun h => absurd (Option.some.inj h) (by decide)
    have hmem : (token false (first.join path)).length ∈
        occurrences (ascii " b/") (headerText (first.join path) (last.join path)) 0 := by
      have hmark : 32 :: (sideOf true ++ ascii "/") = ascii " b/" := by decide
      have htext : headerText (first.join path) (last.join path) =
          token false (first.join path) ++ ascii " b/" ++
            (last.bytes ++ ascii "/" ++ path.bytes) := by
        rw [headerText, hnew, ← hmark]
        simp only [List.append_assoc, List.cons_append]
      rw [mem_occurrences, htext]
      exact ⟨Nat.zero_le _, occurs_append _ _ _⟩
    have hsplit := splitHeader_eq (pairwise_occurrences _ _ _) hmem
      (agreeAt_end hfirst hlast hmemFirst hmemLast hslash path)
      (fun s hs hlt => agreeAt_within hfirst hlast hmemFirst hslash hspace hplain hs hlt)
    rw [if_neg hhead, hsplit, headerText, List.take_left, ← List.drop_drop, List.drop_left,
      List.drop_one, List.tail_cons]
    rfl
  · have hjoin : ¬(first.join path).bytes.all isPlain = true := by
      rw [BaseName.join, List.all_append, Bool.and_eq_true]
      exact fun h => hplain h.2
    have hhead : (headerText (first.join path) (last.join path)).head? = some quote := by
      rw [headerText, token_quoted _ hjoin]
      rfl
    rw [if_pos hhead, gitHeaderTokens_quoted hjoin]

/-- **The header of a path below two directories is rewritten to the header of the path.** -/
theorem rewriteHeader_join :
    rewriteHeader directories (writeHeader (first.join path) (last.join path)) =
      some (writeHeader path path) := by
  have hold := directoryPatchPath_join false path hfirst hmemFirst hslash []
  have hnew := directoryPatchPath_join true path hlast hmemLast hslash []
  rw [List.append_nil, List.append_nil] at hold hnew
  rw [rewriteHeader, directoryTokens_join hfirst hlast hmemFirst hmemLast hslash hspace,
    Option.map_some]
  dsimp only
  rw [show ascii "a" = sideOf false from rfl, show ascii "b" = sideOf true from rfl, hold, hnew,
    (removeNewline_header _ _).2, if_pos rfl, writeHeader]

end Header

/-! ## file lines -/

section Lines

variable {second : Bool} {before after : BaseName} {directories : List Str}
  (hbefore : before.Unquoted) (hafter : after.Unquoted)

/-- The tab behind a path comes from the path. -/
theorem tab_join {name : BaseName} (hname : name.Unquoted) (second : Bool) (path : Path) :
    tab (token second (name.join path)) = tab (token second path) := by
  obtain ⟨lead, rest, -, hjoin, hpath⟩ := token_join hname second path
  have hspace : 32 ∉ name.bytes := fun hmem => (hname 32 hmem).2 rfl
  have hslash : 32 ∉ ascii "/" := by decide
  have hiff : 32 ∈ token second (name.join path) ↔ 32 ∈ token second path := by
    rw [hjoin, hpath]
    simp only [List.mem_append, hspace, hslash, or_false, or_assoc]
  unfold tab
  simp only [hiff]

/-- **What Git writes for a side is rewritten.** -/
theorem directoryPatchPath_sideText (second : Bool) {name : BaseName} (hname : name.Unquoted)
    (hmem : name.bytes ∈ directories) (hslash : ∀ d ∈ directories, 47 ∉ d) (path : Option Path) :
    directoryPatchPath (sideText true second (path.map name.join) ++ [10]) (sideOf second)
        directories =
      sideText true second path ++ [10] := by
  cases path with
  | none => exact directoryPatchPath_null [10]
  | some path =>
      rw [Option.map_some, sideText_some, sideText_some, tab_join hname, List.append_assoc,
        directoryPatchPath_join second path hname hmem hslash, List.append_assoc]

theorem rewriteLines_extended (extended : List Extended) (lines : List Str) :
    rewriteLines directories (extended.map Extended.line ++ lines) =
      extended.map Extended.line ++ rewriteLines directories lines := by
  have hknown : ∀ keyword ∈ extendedKeywords,
      ["@@", "GIT binary patch", "Binary files "].all
        (fun s => differ (ascii s) (ascii keyword)) = true ∧
      ["--- ", "+++ "].all (fun s => differ (ascii s) (ascii keyword)) = true := by
    decide +kernel
  induction extended with
  | nil => rfl
  | cons e extended ih =>
      obtain ⟨hstop, hfile⟩ := hknown e.keyword e.known
      rw [List.map_cons, List.cons_append, Extended.line, List.append_assoc, rewriteLines, stops,
        startsWithAny_of_differ hstop, if_neg Bool.false_ne_true, startsWithAny_of_differ hfile,
        if_neg Bool.false_ne_true, ih, List.cons_append]

theorem rewriteLines_stop {lines : List Str} {line : Str} (h : stops line = true) :
    rewriteLines directories (line :: lines) = line :: lines := by
  rw [rewriteLines, if_pos h]

/-- **The two file lines are rewritten.** -/
theorem rewriteLines_sides {oldSide newSide : Str} {lines : List Str} :
    rewriteLines directories ((ascii "--- " ++ oldSide) :: (ascii "+++ " ++ newSide) :: lines) =
      (ascii "--- " ++ directoryPatchPath oldSide (sideOf false) directories) ::
        (ascii "+++ " ++ directoryPatchPath newSide (sideOf true) directories) ::
          rewriteLines directories lines := by
  have hlen : (ascii "--- ").length = 4 ∧ (ascii "+++ ").length = 4 := by decide
  have hstop : ∀ text, stops (ascii "--- " ++ text) = false ∧
      stops (ascii "+++ " ++ text) = false :=
    fun text => ⟨startsWithAny_of_differ (by decide) _, startsWithAny_of_differ (by decide) _⟩
  have hnew : startsWithAny ["--- "] (ascii "+++ " ++ newSide) = false :=
    startsWithAny_of_differ (by decide) _
  rw [rewriteLines, (hstop _).1, if_neg Bool.false_ne_true, startsWithAny_self (by simp),
    if_pos rfl, startsWithAny_self (by simp), if_pos rfl, rewriteLines, (hstop _).2,
    if_neg Bool.false_ne_true, startsWithAny_self (by simp), if_pos rfl, hnew,
    if_neg Bool.false_ne_true, ← hlen.1, List.take_left, List.drop_left, hlen.1, ← hlen.2,
    List.take_left, List.drop_left]
  rfl

/-- The content of a change is kept. -/
theorem rewriteLines_content (directories : List Str) (content : Content) :
    rewriteLines directories content.lines = content.lines := by
  cases content with
  | none => rfl
  | text hunks =>
      cases hunks with
      | nil => rfl
      | cons hunk hunks =>
          rw [Content.lines, List.flatMap_cons, Hunk.lines, List.cons_append, List.append_assoc]
          exact rewriteLines_stop (startsWithAny_self (by simp) _)
  | binary data =>
      rw [Content.lines, Binary.lines, List.append_assoc]
      exact rewriteLines_stop (startsWithAny_self (List.mem_cons_of_mem _ data.known) _)

/-- The side of a change below the directories. -/
theorem side_located (kind : TreeKind) (path : Path) (second : Bool) :
    (kind.located before after path).side second =
      ((kind.bare path).side second).map (if second then after else before).join := by
  cases kind <;> cases second <;> rfl

include hbefore hafter

/-- **The lines behind a header are rewritten to those of the bare path.** -/
theorem rewriteLines_located (kind : TreeKind) (path : Path) (extended : List Extended)
    (content : Content) :
    rewriteLines [before.bytes, after.bytes]
        (extended.map Extended.line ++ contentLines true (kind.located before after path) content) =
      extended.map Extended.line ++ contentLines true (kind.bare path) content := by
  have hslash : ∀ d ∈ [before.bytes, after.bytes], 47 ∉ d := by
    simp only [List.forall_mem_cons, List.not_mem_nil, false_imp_iff, implies_true, and_true]
    exact ⟨before.noSlash, after.noSlash⟩
  rw [rewriteLines_extended]
  cases content with
  | none => rfl
  | text hunks =>
      have hold := directoryPatchPath_sideText false hbefore (by simp) hslash
        ((kind.bare path).side false)
      have hnew := directoryPatchPath_sideText true hafter (by simp) hslash
        ((kind.bare path).side true)
      have hhunks := rewriteLines_content [before.bytes, after.bytes] (.text hunks)
      rw [Content.lines] at hhunks
      rw [contentLines, side_located, side_located, List.append_assoc, List.append_assoc,
        rewriteLines_sides, hhunks, contentLines, List.append_assoc, List.append_assoc]
      simp only [if_true, Bool.false_eq_true, if_false, hold, hnew]
  | binary data =>
      have hdata := rewriteLines_content [before.bytes, after.bytes] (.binary data)
      rw [Content.lines] at hdata
      rw [contentLines, contentLines, hdata]

/-- **A block is rewritten to that of the bare path.** -/
theorem rewriteBlock_located (kind : TreeKind) (path : Path) (extended : List Extended)
    (content : Content) :
    rewriteBlock [before.bytes, after.bytes]
        (pairLines (kind.located before after path) extended content) =
      some (pairLines (kind.bare path) extended content) := by
  have hslash : ∀ d ∈ [before.bytes, after.bytes], 47 ∉ d := by
    simp only [List.forall_mem_cons, List.not_mem_nil, false_imp_iff, implies_true, and_true]
    exact ⟨before.noSlash, after.noSlash⟩
  have hspace : ∀ d ∈ [before.bytes, after.bytes], 32 ∉ d := by
    simp only [List.forall_mem_cons, List.not_mem_nil, false_imp_iff, implies_true, and_true]
    exact ⟨fun hmem => (hbefore 32 hmem).2 rfl, fun hmem => (hafter 32 hmem).2 rfl⟩
  have hheader : rewriteHeader [before.bytes, after.bytes]
      (writeHeader (kind.located before after path).oldPath
        (kind.located before after path).newPath) =
      some (writeHeader (kind.bare path).oldPath (kind.bare path).newPath) := by
    cases kind with
    | add => exact rewriteHeader_join hafter hafter (by simp) (by simp) hslash hspace
    | delete => exact rewriteHeader_join hbefore hbefore (by simp) (by simp) hslash hspace
    | modify => exact rewriteHeader_join hbefore hafter (by simp) (by simp) hslash hspace
  rw [pairLines, rewriteBlock, if_pos (isPrefixOf_writeHeader _ _), hheader, Option.map_some,
    rewriteLines_located hbefore hafter, pairLines]

end Lines

/-! ## decoding -/

theorem ascii_lt (text : Str) (h : text.all (· < 128) = true) : ∀ c ∈ text, c < 128 :=
  fun c hc => of_decide_eq_true (List.all_eq_true.mp h c hc)

theorem decodeUtf8_newline (bytes rest : List Nat) :
    decodeUtf8 0 (bytes ++ 10 :: rest) = decodeUtf8 0 bytes ++ 10 :: decodeUtf8 0 rest :=
  decodeUtf8_append_ascii (by decide) bytes rest

theorem newline_not_mem_decodeUtf8 {bytes : List Nat} (h : 10 ∉ bytes) : 10 ∉ decodeUtf8 0 bytes :=
  fun hmem => h (mem_of_mem_decodeUtf8 (by decide) hmem)

/-- A line with ASCII characters in front is decoded behind them. -/
theorem decodeUtf8_line {start : Str} (h : ∀ c ∈ start, c < 128) (text : List Nat) :
    decodeUtf8 0 (start ++ text ++ [10]) = start ++ decodeUtf8 0 text ++ [10] := by
  rw [List.append_assoc, decodeUtf8_ascii_append h, decodeUtf8_newline, List.append_assoc]
  rfl

/-- **Lines are decoded one by one.** -/
theorem decodeUtf8_lines {lines : List (List Nat)} (h : ∀ line ∈ lines, IsLine line) :
    decodeUtf8 0 lines.flatten = (lines.map (decodeUtf8 0)).flatten := by
  induction lines with
  | nil => rfl
  | cons line lines ih =>
      rw [List.forall_mem_cons] at h
      obtain ⟨⟨text, -, rfl⟩, hlines⟩ := h
      rw [List.flatten_cons, List.map_cons, List.flatten_cons, List.append_assoc,
        List.singleton_append, decodeUtf8_newline, ih hlines, decodeUtf8_newline, decodeUtf8,
        List.append_assoc]
      rfl

def Extended.decoded (e : Extended) : Extended :=
  ⟨e.keyword, e.known, decodeUtf8 0 e.text, newline_not_mem_decodeUtf8 e.oneLine⟩

def HunkLine.decoded (l : HunkLine) : HunkLine :=
  ⟨l.marker, l.known, decodeUtf8 0 l.text, newline_not_mem_decodeUtf8 l.oneLine⟩

def Hunk.decoded (h : Hunk) : Hunk :=
  ⟨decodeUtf8 0 h.range, newline_not_mem_decodeUtf8 h.oneLine, h.body.map HunkLine.decoded⟩

theorem decoded_dataLine {line : List Nat}
    (h : 10 ∉ line ∧ diffHeader.isPrefixOf (line ++ [10]) = false) :
    10 ∉ decodeUtf8 0 line ∧ diffHeader.isPrefixOf (decodeUtf8 0 line ++ [10]) = false := by
  refine ⟨newline_not_mem_decodeUtf8 h.1, ?_⟩
  have hdecode := decodeUtf8_newline line []
  rw [decodeUtf8] at hdecode
  rw [← hdecode, isPrefixOf_decodeUtf8 (ascii_lt _ (by decide))]
  exact h.2

def Binary.decoded (b : Binary) : Binary where
  keyword := b.keyword
  known := b.known
  text := decodeUtf8 0 b.text
  oneLine := newline_not_mem_decodeUtf8 b.oneLine
  data := b.data.map (decodeUtf8 0)
  dataLines := by
    intro line hline
    obtain ⟨bytes, hbytes, rfl⟩ := List.mem_map.mp hline
    exact decoded_dataLine (b.dataLines bytes hbytes)

/-- The content as a text. -/
def Content.decoded : Content → Content
  | .none => .none
  | .text hunks => .text (hunks.map Hunk.decoded)
  | .binary data => .binary data.decoded

theorem Extended.decode_line (e : Extended) : decodeUtf8 0 e.line = e.decoded.line := by
  have hknown : ∀ keyword ∈ extendedKeywords, (ascii keyword).all (· < 128) = true := by
    decide +kernel
  exact decodeUtf8_line (ascii_lt _ (hknown e.keyword e.known)) e.text

theorem Hunk.decode_lines (h : Hunk) : h.lines.map (decodeUtf8 0) = h.decoded.lines := by
  have hmarker : ∀ marker ∈ ascii " +-\\", marker < 128 := by decide
  have hline : ∀ l : HunkLine, decodeUtf8 0 l.line = l.decoded.line := by
    intro l
    have hstart : ∀ c ∈ [l.marker], c < 128 := by
      rw [List.forall_mem_singleton]
      exact hmarker _ l.known
    exact decodeUtf8_line hstart l.text
  rw [Hunk.lines, List.map_cons, decodeUtf8_line (ascii_lt _ (by decide)), List.map_map]
  simp only [Function.comp_def, hline, Hunk.lines, Hunk.decoded, List.map_map]

theorem Binary.decode_lines (b : Binary) : b.lines.map (decodeUtf8 0) = b.decoded.lines := by
  have hknown : ∀ keyword ∈ ["GIT binary patch", "Binary files "],
      (ascii keyword).all (· < 128) = true := by decide
  have hline : ∀ text, decodeUtf8 0 (text ++ [10]) = decodeUtf8 0 text ++ [10] := fun text =>
    decodeUtf8_newline text []
  rw [Binary.lines, List.map_cons, decodeUtf8_line (ascii_lt _ (hknown b.keyword b.known)),
    List.map_map]
  simp only [Function.comp_def, hline, Binary.lines, Binary.decoded, List.map_map]

theorem sideText_lt (second : Bool) (path : Option Path) :
    ∀ c ∈ sideText true second path, c < 128 := by
  cases path with
  | none =>
      have hnull : (ascii "/dev/null").all (· < 128) = true := by decide
      exact ascii_lt _ hnull
  | some path =>
      intro c hc
      obtain hc | hc := List.mem_append.mp hc
      · have := printable_token c hc
        omega
      · unfold tab at hc
        split at hc
        · rw [List.mem_singleton] at hc
          omega
        · contradiction

theorem writeHeader_lt (oldPath newPath : Path) : ∀ c ∈ writeHeader oldPath newPath, c < 128 := by
  have hfront : ∀ c ∈ diffHeader, c < 128 := ascii_lt _ (by decide)
  intro c hc
  simp only [writeHeader, List.mem_append, List.mem_singleton] at hc
  obtain (((hc | hc) | rfl) | hc) | rfl := hc
  · exact hfront c hc
  · have := printable_token c hc
    omega
  · decide
  · have := printable_token c hc
    omega
  · decide

theorem decode_contentLines (kind : Kind) (content : Content) :
    (contentLines true kind content).map (decodeUtf8 0) =
      contentLines true kind content.decoded := by
  have hside : ∀ {start : Str} (second : Bool) (path : Option Path), (∀ c ∈ start, c < 128) →
      decodeUtf8 0 (start ++ sideText true second path ++ [10]) =
        start ++ sideText true second path ++ [10] := by
    intro start second path hstart
    have hdecode := decodeUtf8_ascii_append (sideText_lt second path) []
    rw [List.append_nil, decodeUtf8, List.append_nil] at hdecode
    rw [decodeUtf8_line hstart, hdecode]
  cases content with
  | none => rfl
  | text hunks =>
      rw [contentLines, List.map_cons, List.map_cons, hside false _ (ascii_lt _ (by decide)),
        hside true _ (ascii_lt _ (by decide)), List.map_flatMap, Content.decoded, contentLines,
        List.flatMap_map]
      simp only [Hunk.decode_lines]
  | binary data => exact data.decode_lines

/-- **The lines of a change are decoded** to those of the decoded change. -/
theorem decode_pairLines (kind : Kind) (extended : List Extended) (content : Content) :
    (pairLines kind extended content).map (decodeUtf8 0) =
      pairLines kind (extended.map Extended.decoded) content.decoded := by
  have hheader := decodeUtf8_ascii_append (writeHeader_lt kind.oldPath kind.newPath) []
  rw [List.append_nil, decodeUtf8, List.append_nil] at hheader
  rw [pairLines, List.map_cons, hheader, List.map_append, decode_contentLines, List.map_map,
    pairLines, List.map_map]
  simp only [Function.comp_def, Extended.decode_line]

/-! ## blocks -/

theorem pairLines_isBlock (kind : Kind) (extended : List Extended) (content : Content) :
    IsBlock (pairLines kind extended content) ∧
      ∀ line ∈ pairLines kind extended content, IsLine line := by
  have hbody : ∀ line ∈ extended.map Extended.line ++ contentLines true kind content,
      IsBodyLine line := by
    intro line hline
    obtain hline | hline := List.mem_append.mp hline
    · obtain ⟨e, -, rfl⟩ := List.mem_map.mp hline
      exact e.isBodyLine
    · exact contentLines_isBodyLine kind content line hline
  have hheader : IsLine (writeHeader kind.oldPath kind.newPath) :=
    @Change.isLine true ⟨kind, [], [], .none⟩ _ List.mem_cons_self
  refine ⟨⟨_, _, rfl, isPrefixOf_writeHeader _ _, fun line hline => (hbody line hline).2⟩, ?_⟩
  rw [pairLines, List.forall_mem_cons]
  exact ⟨hheader, fun line hline => (hbody line hline).1⟩

/-- **The decoded lines of changes** make up blocks. -/
theorem decode_blocks (located : TreeChange → Kind) (changes : List TreeChange) :
    let blocks := changes.map fun c =>
      pairLines (located c) (c.extended.map Extended.decoded) c.content.decoded
    decodeUtf8 0 (changes.flatMap fun c => pairLines (located c) c.extended c.content).flatten =
        blocks.flatten.flatten ∧
      splitPatchBlocks blocks.flatten.flatten = blocks := by
  refine ⟨?_, splitPatchBlocks_blocks ?_⟩
  · rw [decodeUtf8_lines, List.map_flatMap, List.flatMap_def]
    · simp only [decode_pairLines]
    · intro line hline
      obtain ⟨c, -, hmem⟩ := List.mem_flatMap.mp hline
      exact (pairLines_isBlock _ _ _).2 line hmem
  · intro block hblock
    obtain ⟨c, -, rfl⟩ := List.mem_map.mp hblock
    exact pairLines_isBlock _ _ _

theorem bare_lines (kind : TreeKind) (path : Path) (extended : List Extended) (content : Content) :
    Change.lines true ⟨kind.bare path, extended, [], content⟩ =
      pairLines (kind.bare path) extended content := by
  have hrename : renameLines true (kind.bare path) = [] := by
    cases kind <;> rfl
  rw [Change.lines, nameHeader_true, Change.body, hrename, List.append_nil, pairLines]
  simp only [List.map_nil, List.append_nil]

theorem barePatch_eq (changes : List TreeChange) :
    barePatch changes =
      (changes.flatMap fun c => pairLines (c.kind.bare c.path) c.extended c.content).flatten := by
  rw [barePatch, writePatch, List.flatMap_map]
  simp only [TreeChange.bare, bare_lines]

/-- **The paths of the decoded patch** of the bare paths are those of the changes. -/
theorem patchEntries_barePatch (changes : List TreeChange) :
    patchEntries (decodeUtf8 0 (barePatch changes)) =
      some (changes.map fun c => c.bare.entry) := by
  have hdecode := (decode_blocks (fun c => c.kind.bare c.path) changes).1
  have hpatch : decodeUtf8 0 (barePatch changes) = writePatch true (changes.map fun c =>
      ⟨c.kind.bare c.path, c.extended.map Extended.decoded, [], c.content.decoded⟩) := by
    rw [barePatch_eq, hdecode, writePatch, List.flatMap_map, List.flatMap_def]
    simp only [bare_lines]
  have hentry : ∀ c : TreeChange, Change.entry ⟨c.kind.bare c.path, c.extended.map Extended.decoded,
      [], c.content.decoded⟩ = c.bare.entry := by
    intro c
    obtain ⟨kind, path, extended, content, _, _⟩ := c
    cases content <;> rfl
  rw [hpatch, patchEntries_writePatch, List.map_map]
  simp only [Function.comp_def, hentry]

/-- The patch of the bare paths is bytes. -/
theorem barePatch_lt (changes : List TreeChange) : ∀ b ∈ barePatch changes, b < 256 := by
  intro b hb
  rw [barePatch_eq] at hb
  obtain ⟨line, hline, hb⟩ := List.mem_flatten.mp hb
  obtain ⟨c, -, hline⟩ := List.mem_flatMap.mp hline
  have hsmall := c.small
  rw [List.forall_mem_append] at hsmall
  rw [pairLines, List.mem_cons, List.mem_append] at hline
  obtain rfl | hline | hline := hline
  · have := writeHeader_lt _ _ b hb
    omega
  · exact hsmall.1 line hline b hb
  · cases hcontent : c.content with
    | none =>
        rw [hcontent] at hline
        contradiction
    | text hunks =>
        rw [hcontent] at hline hsmall
        have hside : ∀ {start : Str} (second : Bool) (path : Option Path),
            (∀ c ∈ start, c < 128) → b ∈ start ++ sideText true second path ++ [10] → b < 256 := by
          intro start second path hstart hmem
          simp only [List.mem_append, List.mem_singleton] at hmem
          obtain (hmem | hmem) | rfl := hmem
          · have := hstart b hmem
            omega
          · have := sideText_lt second path b hmem
            omega
          · decide
        rw [contentLines, List.mem_cons, List.mem_cons] at hline
        obtain rfl | rfl | hline := hline
        · exact hside false _ (ascii_lt _ (by decide)) hb
        · exact hside true _ (ascii_lt _ (by decide)) hb
        · exact hsmall.2 line hline b hb
    | binary data =>
        rw [hcontent] at hline hsmall
        exact hsmall.2 line hline b hb

theorem basename_join {parent name : Str} (h : 47 ∉ name) :
    basename (parent ++ ascii "/" ++ name) = name := by
  have hall : ∀ c ∈ name.reverse, decide (c ≠ 47) = true := by
    intro c hc
    exact decide_eq_true fun hc' => h (hc' ▸ List.mem_reverse.mp hc)
  rw [basename, List.reverse_append, List.reverse_append, ascii_slash, List.reverse_singleton,
    List.takeWhile_append_of_pos hall]
  simp

/-! ## the headers alone -/

/-- A block that is rewritten: only headers in front of its hunks or its data change. -/
def HeadersOnly (block rewritten : List Str) : Prop :=
  ∃ front front' rest, block = front ++ rest ∧ rewritten = front' ++ rest ∧
    (∀ line ∈ front, stops line = false) ∧
    List.Forall₂ (fun line line' => line' = line ∨
      startsWithAny ["diff --git ", "--- ", "+++ "] line = true) front front'

theorem headersOnly_rewriteLines (directories : List Str) (lines : List Str) :
    HeadersOnly lines (rewriteLines directories lines) := by
  induction lines with
  | nil => exact ⟨[], [], [], rfl, rfl, fun _ h => absurd h List.not_mem_nil, .nil⟩
  | cons line lines ih =>
      obtain ⟨front, front', rest, hlines, hrewritten, hstops, hfront⟩ := ih
      rw [rewriteLines]
      cases hstop : stops line with
      | true => exact ⟨[], [], line :: lines, rfl, rfl, fun _ h => absurd h List.not_mem_nil, .nil⟩
      | false =>
          rw [if_neg Bool.false_ne_true]
          have hall : ∀ l ∈ line :: front, stops l = false :=
            List.forall_mem_cons.mpr ⟨hstop, hstops⟩
          split
          · rename_i hfile
            refine ⟨line :: front, _ :: front', rest, congrArg _ hlines, congrArg _ hrewritten,
              hall, .cons (.inr ?_) hfront⟩
            rw [startsWithAny, List.any_cons, Bool.or_eq_true]
            exact .inr hfile
          · exact ⟨line :: front, line :: front', rest, congrArg _ hlines, congrArg _ hrewritten,
              hall, .cons (.inl rfl) hfront⟩

/-- **Only headers of a block are rewritten.** -/
theorem headersOnly_rewriteBlock {directories block rewritten : List Str}
    (h : rewriteBlock directories block = some rewritten) : HeadersOnly block rewritten := by
  cases block with
  | nil =>
      obtain rfl := Option.some.inj h
      exact headersOnly_rewriteLines directories []
  | cons first lines =>
      rw [rewriteBlock] at h
      split at h
      · rename_i hheader
        obtain ⟨header, -, rfl⟩ := Option.map_eq_some_iff.mp h
        obtain ⟨front, front', rest, hlines, hrewritten, hstops, hfront⟩ :=
          headersOnly_rewriteLines directories lines
        have hstop : stops first = false := by
          obtain ⟨more, rfl⟩ := List.isPrefixOf_iff_prefix.mp hheader
          exact startsWithAny_of_differ (by decide) more
        refine ⟨first :: front, header :: front', rest, congrArg _ hlines, congrArg _ hrewritten,
          List.forall_mem_cons.mpr ⟨hstop, hstops⟩, .cons (.inr ?_) hfront⟩
        rw [startsWithAny, List.any_cons, Bool.or_eq_true]
        exact .inl hheader
      · obtain rfl := Option.some.inj h
        exact ⟨[], [], first :: lines, rfl, rfl, fun _ h => absurd h List.not_mem_nil, .nil⟩

/-! ## the patch -/

/-- **The patch of two directories is rewritten to that of the bare paths**, whose paths
are read back; only header lines change. -/
theorem directory_patch_rewritten (beforeParent afterParent : Str) (before after : BaseName)
    (changes : List TreeChange) (hbefore : before.Unquoted) (hafter : after.Unquoted) :
    directoryPatchBytes (noIndexPatch before after changes)
        (beforeParent ++ ascii "/" ++ before.bytes) (afterParent ++ ascii "/" ++ after.bytes) =
      some (barePatch changes) ∧
    patchEntries (decodeUtf8 0 (barePatch changes)) =
      some (changes.map fun c => c.bare.entry) ∧
    List.Forall₂ HeadersOnly
      (splitPatchBlocks (decodeUtf8 0 (noIndexPatch before after changes)))
      (splitPatchBlocks (decodeUtf8 0 (barePatch changes))) := by
  obtain ⟨hinput, hinputSplit⟩ :=
    decode_blocks (fun c => c.kind.located before after c.path) changes
  obtain ⟨houtput, houtputSplit⟩ := decode_blocks (fun c => c.kind.bare c.path) changes
  have hpatch : noIndexPatch before after changes = (changes.flatMap fun c =>
      pairLines (c.kind.located before after c.path) c.extended c.content).flatten := rfl
  rw [← hpatch] at hinput
  rw [← barePatch_eq] at houtput
  refine ⟨?_, patchEntries_barePatch changes, ?_⟩
  · have hblocks : (rewriteBlock [before.bytes, after.bytes] ∘ fun c : TreeChange =>
        pairLines (c.kind.located before after c.path) (c.extended.map Extended.decoded)
          c.content.decoded) =
        fun c => pure (pairLines (c.kind.bare c.path) (c.extended.map Extended.decoded)
          c.content.decoded) :=
      funext fun c => rewriteBlock_located hbefore hafter _ _ _ _
    rw [directoryPatchBytes, basename_join before.noSlash, basename_join after.noSlash,
      directoryPatchText, hinput, hinputSplit, List.mapM_map, hblocks, List.mapM_pure]
    simp only [Option.pure_def, Option.map_some, Option.bind_eq_bind, Option.bind_some]
    rw [← houtput, encodeUtf8_decodeUtf8 (barePatch_lt changes)]
  · rw [hinput, houtput, hinputSplit, houtputSplit, List.forall₂_map_left_iff,
      List.forall₂_map_right_iff, List.forall₂_same]
    exact fun c _ => headersOnly_rewriteBlock (rewriteBlock_located hbefore hafter _ _ _ _)

/-- The `index` line of a modified file. -/
def modifiedIndex : List Extended :=
  addedEmpty.after.map fun e => ⟨e.keyword, e.known, ascii "7898192..6178079 100644", by decide⟩

/-- A modified file `x`. -/
def modifiedFile : TreeChange where
  kind := .modify
  path := addedEmpty.kind.newPath
  extended := modifiedIndex
  content := .text [⟨ascii " -1 +1 @@", by decide,
    [⟨45, by decide, ascii "before", by decide⟩, ⟨43, by decide, ascii "after", by decide⟩]⟩]
  written := by simp
  small := by decide

/-- An added empty file `x`. -/
def emptyFile : TreeChange where
  kind := .add
  path := addedEmpty.kind.newPath
  extended := addedEmpty.before ++ addedEmpty.after
  content := .none
  written := by simp
  small := by decide

/-- The names that the directories are made with. -/
def baselineName : BaseName :=
  ⟨ascii "opencollab-cp-baseline-k3_x", by decide, by decide, by decide⟩

def worktreeName : BaseName := ⟨ascii "opencollab-cp-b7qz", by decide, by decide, by decide⟩

theorem directory_patch_rewritten_sample :
    directoryPatchBytes (noIndexPatch baselineName worktreeName [modifiedFile, emptyFile])
        (ascii "/tmp" ++ ascii "/" ++ baselineName.bytes)
        (ascii "/tmp" ++ ascii "/" ++ worktreeName.bytes) =
      some (barePatch [modifiedFile, emptyFile]) ∧
    patchEntries (decodeUtf8 0 (barePatch [modifiedFile, emptyFile])) =
      some ([modifiedFile, emptyFile].map fun c => c.bare.entry) ∧
    List.Forall₂ HeadersOnly
      (splitPatchBlocks
        (decodeUtf8 0 (noIndexPatch baselineName worktreeName [modifiedFile, emptyFile])))
      (splitPatchBlocks (decodeUtf8 0 (barePatch [modifiedFile, emptyFile]))) :=
  directory_patch_rewritten (ascii "/tmp") (ascii "/tmp") baselineName worktreeName
    [modifiedFile, emptyFile] (by decide) (by decide)

/-- A name with a quote, which Git escapes. -/
def quotedName : BaseName := ⟨ascii "d\"", by decide, by decide, by decide⟩

/-- A name with a space, behind which Git writes a tab. -/
def spacedName : BaseName := ⟨ascii "d e", by decide, by decide, by decide⟩

/-- **An escaped name is not stripped**: the path that is read has the directory in front.
**The tab behind a spaced name stays.**  And an added empty file has its path on both
sides. -/
theorem base_names_kept :
    (directoryPatchBytes (noIndexPatch quotedName worktreeName [modifiedFile])
        (ascii "/tmp/d\"") (ascii "/tmp/opencollab-cp-b7qz")).map
          (fun bytes => patchEntries (decodeUtf8 0 bytes)) =
        some (some [(ascii "d\"/x", ascii "x")]) ∧
    ¬directoryPatchBytes (noIndexPatch spacedName worktreeName [modifiedFile])
        (ascii "/tmp/d e") (ascii "/tmp/opencollab-cp-b7qz") = some (barePatch [modifiedFile]) ∧
    ¬patchEntries (decodeUtf8 0 (barePatch [emptyFile])) =
        some ([emptyFile].map fun c => c.bare.paths) := by
  decide +kernel

end OpenCollab.PatchPaths
