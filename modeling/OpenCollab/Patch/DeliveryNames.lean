import OpenCollab.Lib.FirstOccurrences
import OpenCollab.Patch.DeliveryFiles

/-!
# OpenCollab.Patch.DeliveryNames

The names that a delivery snapshot cuts from the headers of a working tree's text.

* `cutName_header`, `clear_of_cutName` — the name of the new path is cut from a header
  exactly where the new path needs no quotes and the old one has no `" b/"`;
* `quoted_name_ne` — also what is cut inside a quoted path is not that path: counted are
  the characters that Git escapes;
* `names_of_marks` — the names of the headers, and of the lines between them;
* `deliveryDiffFiles_listed` — where the files are listed.
-/

namespace OpenCollab.PatchPaths

open Lib

/-! ## the names that are cut -/

/-- The name can be cut from the header: the new path needs no quotes, and the old path
as Git writes it has no `" b/"`. -/
def Change.Clear (c : Change) : Prop :=
  c.kind.newPath.bytes.all isPlain = true ∧ ¬ascii " b/" <:+: token false c.kind.oldPath

theorem occurs_iff {part text : Str} {n : Nat} :
    Occurs part text n ↔ ∃ front back, text = front ++ part ++ back ∧ front.length = n := by
  rw [Occurs]
  constructor
  · rintro ⟨hlen, hpart⟩
    refine ⟨text.take n, text.drop (n + part.length), ?_, by rw [List.length_take]; omega⟩
    rw [List.append_assoc, ← List.drop_drop]
    conv_lhs => rw [← List.take_append_drop n text]
    congr 1
    conv_lhs => rw [← List.take_append_drop part.length (text.drop n), hpart]
  · rintro ⟨front, back, rfl, rfl⟩
    refine ⟨by simp only [List.length_append]; omega, ?_⟩
    rw [List.append_assoc, List.drop_left, List.take_left]

/-- An occurrence in front of the separator lies in the old path. -/
theorem infix_of_occurs {old new : Str} (hold : ∃ rest, old = 97 :: rest ∨ old = quote :: rest)
    {m : Nat} (hocc : Occurs (ascii " b/") (diffHeader ++ old ++ 32 :: new) m)
    (hm : m < (diffHeader ++ old).length) : ascii " b/" <:+: old := by
  have hb : ascii " b/" = [32, 98, 47] := by decide
  have hlen : diffHeader.length = 11 := by decide
  have hget : ∀ i < 3, (diffHeader ++ old ++ 32 :: new)[m + i]? = (ascii " b/")[i]? := by
    intro i hi
    have h : (((diffHeader ++ old ++ 32 :: new).drop m).take (ascii " b/").length)[i]? =
        (ascii " b/")[i]? := by rw [hocc.2]
    rw [hb, List.getElem?_take, List.length_cons, List.length_cons, List.length_singleton,
      if_pos hi,
      List.getElem?_drop] at h
    rw [hb]
    exact h
  have hzero := hget 0 (by omega)
  have hone := hget 1 (by omega)
  have htwo := hget 2 (by omega)
  rw [hb] at hzero hone htwo
  rw [List.length_append, hlen] at hm
  -- not in `diff --git `, whose blanks are followed by other letters
  have hstart : 11 ≤ m := by
    by_contra hlt
    have hkeyword : ∀ m < 10, (diffHeader[m]? = some 32) → diffHeader[m + 1]? ≠ some 98 := by decide
    by_cases hten : m = 10
    · obtain ⟨rest, rfl | rfl⟩ := hold
      · rw [hten, List.append_assoc, List.getElem?_append_right (by omega), hlen] at hone
        exact absurd hone (by simp)
      · rw [hten, List.append_assoc, List.getElem?_append_right (by omega), hlen] at hone
        exact absurd hone (by simp [quote])
    · have hlow : m < 10 := by omega
      rw [List.append_assoc, List.getElem?_append_left (by omega)] at hzero hone
      exact hkeyword m hlow hzero hone
  obtain ⟨i, rfl⟩ := Nat.exists_eq_add_of_le hstart
  have hinside : i + 2 < old.length := by
    by_contra hge
    rw [List.getElem?_append] at hone htwo
    by_cases hlast : i + 1 = old.length
    · rw [if_neg (by rw [List.length_append, hlen]; omega)] at hone
      rw [List.length_append, hlen, show 11 + i + 1 - (11 + old.length) = 0 by omega] at hone
      exact absurd hone (by simp)
    · have hsecond : i + 2 = old.length := by omega
      rw [if_neg (by rw [List.length_append, hlen]; omega)] at htwo
      rw [List.length_append, hlen, show 11 + i + 2 - (11 + old.length) = 0 by omega] at htwo
      exact absurd htwo (by simp)
  have hoccurs : Occurs (ascii " b/") old i := by
    have h := hocc.2
    have hfits : (ascii " b/").length ≤ (old.drop i).length := by
      rw [hb, List.length_drop]
      simp only [List.length_cons, List.length_nil]
      omega
    rw [List.append_assoc, List.drop_append, List.drop_of_length_le (by omega),
      List.nil_append, hlen,
      Nat.add_sub_cancel_left, List.drop_append_of_le_length (by omega),
      List.take_append_of_le_length hfits] at h
    rw [List.length_drop] at hfits
    exact ⟨by omega, h⟩
  obtain ⟨front, back, htext, -⟩ := occurs_iff.mp hoccurs
  exact ⟨front, back, htext.symm⟩

/-- **The name that is cut from a clear header** is that of the new path. -/
theorem cutName_header {c : Change} (h : c.Clear) :
    cutName (cutHeader c.kind.oldPath c.kind.newPath) = some c.kind.newPath.text := by
  obtain ⟨hplain, hno⟩ := h
  have hb : sideOf true ++ ascii "/" = [98, 47] := by decide
  have hsep : ascii " b/" = [32, 98, 47] := by decide
  have hhold : ∃ rest, token false c.kind.oldPath = 97 :: rest ∨
      token false c.kind.oldPath = quote :: rest := by
    by_cases hold : c.kind.oldPath.bytes.all isPlain = true
    · exact ⟨_, .inl (token_plain hold)⟩
    · exact ⟨_, .inr (token_quoted false hold)⟩
  have htext : cutHeader c.kind.oldPath c.kind.newPath =
      diffHeader ++ token false c.kind.oldPath ++ 32 :: 98 :: 47 :: c.kind.newPath.bytes := by
    rw [cutHeader, token_plain hplain, hb, List.append_assoc, List.append_assoc]
    rfl
  have hfind : find (ascii " b/") (cutHeader c.kind.oldPath c.kind.newPath) =
      some (diffHeader ++ token false c.kind.oldPath).length := by
    rw [htext]
    refine find_eq_some (occurs_iff.mpr ⟨_, c.kind.newPath.bytes, ?_, rfl⟩) fun m hm hocc =>
      hno (infix_of_occurs hhold hocc hm)
    rw [hsep, List.append_assoc (diffHeader ++ token false c.kind.oldPath)]
    rfl
  have hdecode : c.kind.newPath.text = c.kind.newPath.bytes := by
    have hascii := decodeUtf8_ascii_append (lt_of_isPlain hplain) []
    rw [List.append_nil] at hascii
    rw [Path.text, hascii]
    exact List.append_nil _
  rw [cutName, hfind, Option.map_some, htext, hdecode, ← List.drop_drop, List.drop_left]
  rfl

/-! ## the names that are not cut -/

/-- A quote or a backslash, which Git escapes by a backslash. -/
def isSpecial (c : Nat) : Bool := c = quote || c = backslash

/-- The escaped text of printable bytes has one more special character for each. -/
theorem count_escaped {bytes : List Nat} (h : ∀ b ∈ bytes, 32 ≤ b ∧ b < 127) :
    (bytes.flatMap escapeByte).length = bytes.length + bytes.countP isSpecial ∧
      (bytes.flatMap escapeByte).countP isSpecial = 2 * bytes.countP isSpecial := by
  have hescape : ∀ b < 127, 32 ≤ b →
      escapeByte b = if isSpecial b then [backslash, b] else [b] := by
    decide +kernel
  induction bytes with
  | nil => exact ⟨rfl, rfl⟩
  | cons b bytes ih =>
      rw [List.forall_mem_cons] at h
      obtain ⟨hlen, hcount⟩ := ih h.2
      have hslash : isSpecial backslash = true := by decide
      rw [List.flatMap_cons, List.length_append, List.countP_append, hescape b h.1.2 h.1.1, hlen,
        hcount, List.countP_cons, List.length_cons]
      cases hb : isSpecial b with
      | false => simp [hb]; omega
      | true => simp [hb, hslash]; omega

/-- A blank, a `b` and a slash in an escaped text are characters of the text itself. -/
theorem split_escaped {bytes : List Nat} (h : ∀ b ∈ bytes, b < 256) {tail : Str}
    (htail : ∃ c rest, tail = c :: rest ∧ c ≠ 98 ∧ c ≠ 47) {i : Nat}
    (hi : i < (bytes.flatMap escapeByte).length)
    (hsep : ascii " b/" <+: (bytes.flatMap escapeByte ++ tail).drop i) :
    ∃ u v, bytes = u ++ ascii " b/" ++ v ∧
      (bytes.flatMap escapeByte ++ tail).drop (i + 3) = v.flatMap escapeByte ++ tail := by
  have hb : ascii " b/" = [32, 98, 47] := by decide
  have hplace : ∀ b < 256, ∀ i < (escapeByte b).length, (escapeByte b)[i]? = some 32 →
      b = 32 ∧ i = 0 := by
    decide +kernel
  have hfirst : ∀ b < 256, escapeByte b ≠ [] ∧ ((escapeByte b).head? = some 98 → b = 98) ∧
      ((escapeByte b).head? = some 47 → b = 47) := by
    decide +kernel
  -- the next byte of the text is the next character
  have hnext : ∀ (d : Nat), (∀ b < 256, (escapeByte b).head? = some d → b = d) →
      (∃ c rest, tail = c :: rest ∧ c ≠ d) → ∀ (bytes : List Nat) (more : Str),
      (∀ b ∈ bytes, b < 256) → d :: more <+: bytes.flatMap escapeByte ++ tail →
      ∃ rest, bytes = d :: rest := by
    intro d hd htail bytes more hsmall hpre
    cases bytes with
    | nil =>
        obtain ⟨c, rest, hc, hne⟩ := htail
        rw [List.flatMap_nil, List.nil_append, hc, List.cons_prefix_cons] at hpre
        exact absurd hpre.1.symm hne
    | cons b bytes =>
        obtain ⟨c, rest, hc⟩ := List.exists_cons_of_ne_nil (hfirst b (hsmall b (by simp))).1
        rw [List.flatMap_cons, hc, List.cons_append, List.cons_append,
          List.cons_prefix_cons] at hpre
        refine ⟨bytes, ?_⟩
        rw [hd b (hsmall b (by simp)) (by rw [hc, List.head?_cons, hpre.1])]
  obtain ⟨c, rest, hcons, hnb, hnslash⟩ := htail
  induction bytes generalizing i with
  | nil => exact absurd hi (Nat.not_lt_zero _)
  | cons b bytes ih =>
      rw [List.forall_mem_cons] at h
      rw [List.flatMap_cons, List.length_append] at hi
      rw [List.flatMap_cons, List.append_assoc] at hsep ⊢
      cases Nat.lt_or_ge i (escapeByte b).length with
      | inr hbehind =>
          rw [List.drop_append, List.drop_of_length_le hbehind, List.nil_append] at hsep
          obtain ⟨u, v, hbytes, hdrop⟩ := ih h.2 (by omega) hsep
          refine ⟨b :: u, v, by rw [hbytes]; rfl, ?_⟩
          rw [List.drop_append, List.drop_of_length_le (by omega), List.nil_append,
            show i + 3 - (escapeByte b).length = i - (escapeByte b).length + 3 by omega, hdrop]
      | inl hinside =>
          have hat : (escapeByte b)[i]? = some 32 := by
            have hget := congrArg List.head? (List.prefix_iff_eq_take.mp hsep)
            rw [hb, List.head?_cons, List.head?_take, if_neg (by decide), List.head?_drop,
              List.getElem?_append_left hinside] at hget
            exact hget.symm
          obtain ⟨rfl, rfl⟩ := hplace b h.1 i hinside hat
          have hblank : escapeByte 32 = [32] ∧ escapeByte 98 = [98] ∧
            escapeByte 47 = [47] := by decide
          rw [hblank.1, hb] at hsep
          have hletter : [98, 47] <+: bytes.flatMap escapeByte ++ tail :=
            (List.cons_prefix_cons.mp hsep).2
          obtain ⟨bytes, rfl⟩ := hnext 98 (fun b hb => (hfirst b hb).2.1) ⟨c, rest, hcons, hnb⟩
            bytes [47] h.2 hletter
          rw [List.flatMap_cons, hblank.2.1] at hletter
          have hslash : [47] <+: bytes.flatMap escapeByte ++ tail :=
            (List.cons_prefix_cons.mp hletter).2
          obtain ⟨bytes, rfl⟩ := hnext 47 (fun b hb => (hfirst b hb).2.2) ⟨c, rest, hcons, hnslash⟩
            bytes [] (fun b hb => h.2 b (List.mem_cons_of_mem _ hb)) hslash
          refine ⟨[], bytes, by rw [hb]; rfl, ?_⟩
          rw [List.flatMap_cons, List.flatMap_cons, hblank.1, hblank.2.1, hblank.2.2]
          rfl

theorem length_decodeUtf8_le (bytes : List Nat) : (decodeUtf8 0 bytes).length ≤ bytes.length := by
  induction hlen : bytes.length using Nat.strongRecOn generalizing bytes with
  | _ n ih =>
      cases bytes with
      | nil => exact Nat.zero_le _
      | cons b bytes =>
          rw [List.length_cons] at hlen
          obtain ⟨-, -, hdecode⟩ | ⟨c, rest, -, -, hle, hdecode⟩ := decodeUtf8_cases b bytes
          · have := ih bytes.length (by omega) bytes rfl
            rw [hdecode, List.length_cons]
            omega
          · have := ih rest.length (by omega) rest rfl
            rw [hdecode, List.length_cons]
            omega

/-- A text of ASCII characters is decoded from itself only. -/
theorem eq_of_decodeUtf8_ascii {bytes text : List Nat} (h : decodeUtf8 0 bytes = text)
    (hascii : ∀ c ∈ text, c < 128) : bytes = text := by
  induction text generalizing bytes with
  | nil =>
      cases bytes with
      | nil => rfl
      | cons b bytes =>
          obtain ⟨-, -, hdecode⟩ | ⟨c, rest, -, -, -, hdecode⟩ := decodeUtf8_cases b bytes
          · rw [h] at hdecode
            contradiction
          · rw [h] at hdecode
            contradiction
  | cons c text ih =>
      rw [List.forall_mem_cons] at hascii
      obtain ⟨more, rfl, hmore⟩ := decodeUtf8_eq_cons hascii.1 h
      rw [ih hmore hascii.2]

/-- **A quoted name is never cut as it is**: it would have to end as it is escaped. -/
theorem quoted_name_ne {bytes u v : List Nat}
    (hbytes : ascii "b/" ++ bytes = u ++ ascii " b/" ++ v) (h : ∀ b ∈ bytes, 32 ≤ b ∧ b < 127) :
    bytes ≠ v.flatMap escapeByte ++ [quote] := by
  intro heq
  have hv : ∀ b ∈ v, 32 ≤ b ∧ b < 127 := by
    have hside : ∀ c ∈ ascii "b/", 32 ≤ c ∧ c < 127 := by decide
    intro b hb
    have hmem : b ∈ ascii "b/" ++ bytes := hbytes ▸ List.mem_append_right _ hb
    obtain hmem | hmem := List.mem_append.mp hmem
    · exact hside b hmem
    · exact h b hmem
  obtain ⟨hlen, hcount⟩ := count_escaped hv
  have hsides : (ascii "b/").length = 2 ∧ (ascii "b/").countP isSpecial = 0 ∧
      (ascii " b/").length = 3 ∧ (ascii " b/").countP isSpecial = 0 ∧
      [quote].countP isSpecial = 1 := by decide
  obtain ⟨hone, htwo, hthree, hfour, hfive⟩ := hsides
  have hlens := congrArg List.length hbytes
  have hcounts := congrArg (List.countP isSpecial) hbytes
  rw [heq] at hlens hcounts
  simp only [List.length_append, List.countP_append, hlen, hcount, hone, htwo, hthree, hfour, hfive,
    List.length_singleton] at hlens hcounts
  have hle : u.countP isSpecial ≤ u.length := List.countP_le_length
  omega

theorem length_escaped_le {bytes : List Nat} (h : ∀ b ∈ bytes, b < 256) :
    bytes.length ≤ (bytes.flatMap escapeByte).length := by
  have hpos : ∀ b < 256, 1 ≤ (escapeByte b).length := by decide +kernel
  induction bytes with
  | nil => exact Nat.le_refl _
  | cons b bytes ih =>
      rw [List.forall_mem_cons] at h
      have := hpos b h.1
      have := ih h.2
      rw [List.flatMap_cons, List.length_append, List.length_cons]
      omega

/-- A name that is cut from the header in front of the new path is too long. -/
theorem name_ne_of_early {c : Change} {start : Nat} {name : Str}
    (hname : (cutHeader c.kind.oldPath c.kind.newPath).drop (start + 3) = name)
    (hlong : c.kind.newPath.bytes.length <
      (cutHeader c.kind.oldPath c.kind.newPath).length - (start + 3)) :
    name ≠ c.kind.newPath.text := by
  intro heq
  have hlen := congrArg List.length hname
  have hle := length_decodeUtf8_le c.kind.newPath.bytes
  rw [List.length_drop, heq, Path.text] at hlen
  omega

theorem find_spec {part text : Str} {n : Nat} (h : find part text = some n) :
    Occurs part text n ∧ ∀ m, Occurs part text m → n ≤ m := by
  have hmem := List.mem_of_mem_head? h
  rw [find, occurrences, List.head?_filter, List.find?_range'_eq_some] at h
  refine ⟨(mem_occurrences.mp hmem).2, fun m hocc => ?_⟩
  by_contra hlt
  have hnot := h.2.2 m (Nat.zero_le _) (by omega)
  rw [Bool.not_eq_true', decide_eq_false_iff_not] at hnot
  exact hnot hocc.2

/-- **Only from a clear header** the name of the new path is cut. -/
theorem clear_of_cutName {c : Change}
    (h : cutName (cutHeader c.kind.oldPath c.kind.newPath) = some c.kind.newPath.text) :
      c.Clear := by
  rw [cutName, Option.map_eq_some_iff] at h
  obtain ⟨start, hfind, hname⟩ := h
  obtain ⟨hocc, hfirst⟩ := find_spec hfind
  have hb : ascii " b/" = [32, 98, 47] := by decide
  have hside : sideOf true ++ ascii "/" = ascii "b/" := by decide
  have htext : cutHeader c.kind.oldPath c.kind.newPath =
      diffHeader ++ token false c.kind.oldPath ++ 32 :: token true c.kind.newPath := by
    rw [cutHeader, List.append_assoc (diffHeader ++ token false c.kind.oldPath)]
    rfl
  have hlen : (cutHeader c.kind.oldPath c.kind.newPath).length =
      (diffHeader ++ token false c.kind.oldPath).length + 1 +
        (token true c.kind.newPath).length := by
    rw [htext, List.length_append, List.length_cons]
    omega
  by_cases hplain : c.kind.newPath.bytes.all isPlain = true
  · refine ⟨hplain, ?_⟩
    rintro ⟨front, back, htoken⟩
    have hearly : start ≤ (diffHeader ++ front).length := by
      refine hfirst _ (occurs_iff.mpr
        ⟨diffHeader ++ front, back ++ 32 :: token true c.kind.newPath, ?_, rfl⟩)
      rw [htext, ← htoken]
      simp only [List.append_assoc]
    have htokenlen := congrArg List.length htoken
    have hnew : (token true c.kind.newPath).length = 2 + c.kind.newPath.bytes.length := by
      rw [token_plain hplain, List.length_append, hside]
      rfl
    refine absurd rfl (name_ne_of_early hname ?_)
    simp only [hb, List.length_append, List.length_cons, List.length_nil] at hearly htokenlen hlen
    omega
  · have hquoted := token_quoted true hplain
    rw [hside] at hquoted
    have hsmall : ∀ b ∈ ascii "b/" ++ c.kind.newPath.bytes, b < 256 := by
      rw [← hside]
      exact side_bytes true c.kind.newPath
    have hescaped := length_escaped_le c.kind.newPath.small
    have hslash : (ascii "b/").flatMap escapeByte = ascii "b/" := by decide
    have hnew : (token true c.kind.newPath).length =
        4 + (c.kind.newPath.bytes.flatMap escapeByte).length := by
      rw [hquoted, List.flatMap_append, hslash, List.length_cons, List.length_append,
        List.length_append, List.length_singleton, show (ascii "b/").length = 2 by decide]
      omega
    cases Nat.lt_or_ge start ((diffHeader ++ token false c.kind.oldPath).length + 2) with
    | inl hearly =>
        refine absurd rfl (name_ne_of_early hname ?_)
        omega
    | inr hlate =>
        -- the name is cut from the new path, and ends with its quote
        obtain ⟨i, rfl⟩ := Nat.exists_eq_add_of_le hlate
        have hbehind : ∀ k, (cutHeader c.kind.oldPath c.kind.newPath).drop
            ((diffHeader ++ token false c.kind.oldPath).length + 2 + k) =
              ((ascii "b/" ++ c.kind.newPath.bytes).flatMap escapeByte ++ [quote]).drop k := by
          intro k
          rw [htext, hquoted, Nat.add_assoc, ← List.drop_drop, List.drop_left, Nat.add_comm 2 k,
            List.drop_succ_cons, List.drop_succ_cons]
        have hsep : ascii " b/" <+:
            ((ascii "b/" ++ c.kind.newPath.bytes).flatMap escapeByte ++ [quote]).drop i := by
          rw [← hbehind, List.prefix_iff_eq_take]
          exact hocc.2.symm
        have hinside : i < ((ascii "b/" ++ c.kind.newPath.bytes).flatMap escapeByte).length := by
          have := hsep.length_le
          rw [hb, List.length_drop, List.length_append, List.length_singleton] at this
          simp only [List.length_cons, List.length_nil] at this
          omega
        obtain ⟨u, v, hbytes, hdrop⟩ := split_escaped hsmall
          ⟨quote, [], rfl, by decide, by decide⟩ hinside hsep
        rw [Nat.add_assoc, hbehind, hdrop] at hname
        have hprintable : ∀ x ∈ c.kind.newPath.text, 32 ≤ x ∧ x < 127 := by
          have hall : ∀ x ∈ token true c.kind.newPath, 32 ≤ x ∧ x < 127 := printable_token
          intro x hx
          rw [← hname, ← hdrop] at hx
          refine hall x ?_
          rw [hquoted]
          exact List.mem_cons_of_mem _ (List.mem_of_mem_drop hx)
        have hsame : c.kind.newPath.bytes = c.kind.newPath.text :=
          eq_of_decodeUtf8_ascii rfl fun x hx => Nat.lt_trans (hprintable x hx).2 (by decide)
        refine absurd (hsame.trans hname.symm) (quoted_name_ne hbytes ?_)
        rw [hsame]
        exact hprintable

/-! ## the files that are listed -/

/-- The changes the text shows. -/
def Probed.changes (p : Probed) : List Change := p.tracked ++ p.untracked.flatMap (·.2)

/-- The new path of each change, that of a deleted file included, without repeats. -/
def Probed.newPaths (p : Probed) : List Str :=
  (p.changes.map fun c => c.kind.newPath.text).eraseDups

/-- What only looks like a header names nothing, or a file that is listed before it. -/
def Quiet (marks : List Mark) : Prop :=
  ∀ front line back, marks = front ++ Mark.forged line :: back → ∀ name, cutName line = some name →
    ∃ c, Mark.header c ∈ front ∧ c.kind.newPath.text = name

/-- The change of a header. -/
def Mark.change : Mark → Option Change
  | .header c => some c
  | .forged _ => none

theorem change_forged (lines : List Str) : (lines.map Mark.forged).filterMap Mark.change = [] := by
  rw [List.filterMap_map, List.filterMap_eq_nil_iff]
  exact fun _ _ => rfl

theorem change_marks (changes : List Change) :
    (changes.flatMap Change.marks).filterMap Mark.change = changes := by
  induction changes with
  | nil => rfl
  | cons c changes ih =>
      rw [List.flatMap_cons, List.filterMap_append, ih, Change.marks, List.filterMap_cons,
        change_forged]
      rfl

/-- The headers are those of the changes. -/
theorem change_probed (p : Probed) : p.marks.filterMap Mark.change = p.changes := by
  rw [Probed.marks, Probed.changes, List.filterMap_append]
  congr 1
  · split
    · rename_i hnil
      rw [hnil]
      rfl
    · rw [List.filterMap_append, change_forged, change_marks, List.nil_append]
  · rw [List.filterMap_flatMap]
    refine List.flatMap_congr fun file _ => ?_
    rw [List.filterMap_append, change_forged, change_marks, List.nil_append]

/-- Clear headers and quiet lines between them name the new paths. -/
theorem names_of_marks {marks : List Mark} (hclear : ∀ c, Mark.header c ∈ marks → c.Clear)
    (hquiet : Quiet marks) :
    ((marks.map Mark.line).filterMap cutName).eraseDups =
      ((marks.filterMap Mark.change).map fun c => c.kind.newPath.text).eraseDups := by
  induction marks using List.reverseRecOn with
  | nil => rfl
  | append_singleton marks mark ih =>
      have hfront := ih (fun c hc => hclear c (List.mem_append_left _ hc))
        fun front line back h => by
        refine hquiet front line (back ++ [mark]) ?_
        rw [h, List.append_assoc, List.cons_append]
      have hmem : ∀ name, name ∈ (marks.map Mark.line).filterMap cutName ↔
          name ∈ (marks.filterMap Mark.change).map fun c => c.kind.newPath.text := by
        intro name
        rw [← List.mem_eraseDups, hfront, List.mem_eraseDups]
      rw [List.map_append, List.filterMap_append, List.filterMap_append, List.map_append]
      cases mark with
      | header c =>
          have hname := cutName_header (hclear c (by simp))
          simp only [List.map_cons, List.map_nil, List.filterMap_cons, List.filterMap_nil,
            Mark.line,
            Mark.change, hname, eraseDups_concat, hfront, hmem]
      | forged line =>
          have hchange : [Mark.forged line].filterMap Mark.change = [] := rfl
          rw [hchange, List.map_nil, List.append_nil, ← hfront]
          cases hcut : cutName line with
          | none => simp only [List.map_cons, List.map_nil, List.filterMap_cons, List.filterMap_nil,
              Mark.line, hcut, List.append_nil]
          | some name =>
              obtain ⟨c, hc, htext⟩ := hquiet marks line [] rfl name hcut
              have hold : name ∈ (marks.map Mark.line).filterMap cutName := by
                rw [hmem, List.mem_map]
                exact ⟨c, List.mem_filterMap.mpr ⟨_, hc, rfl⟩, htext⟩
              simp only [List.map_cons, List.map_nil, List.filterMap_cons, List.filterMap_nil,
                Mark.line, hcut, eraseDups_concat, if_pos hold, List.append_nil]

/-- No name is cut from what only looks like a header. -/
def Unforged (marks : List Mark) : Prop := ∀ line, Mark.forged line ∈ marks → cutName line = none

/-- Changes with one new path have one header: they are the deletion and the addition of
one file. -/
def SameHeaders (changes : List Change) : Prop :=
  ∀ c ∈ changes, ∀ d ∈ changes, c.kind.newPath.text = d.kind.newPath.text →
    cutHeader c.kind.oldPath c.kind.newPath = cutHeader d.kind.oldPath d.kind.newPath

theorem Unforged.quiet {marks : List Mark} (h : Unforged marks) : Quiet marks := by
  intro front line back hmarks name hcut
  rw [h line (hmarks ▸ List.mem_append_right _ List.mem_cons_self)] at hcut
  contradiction

theorem names_unforged {marks : List Mark} (h : Unforged marks) :
    (marks.map Mark.line).filterMap cutName = (marks.filterMap Mark.change).filterMap fun c =>
      cutName (cutHeader c.kind.oldPath c.kind.newPath) := by
  induction marks with
  | nil => rfl
  | cons mark marks ih =>
      have hrest := ih fun line hline => h line (List.mem_cons_of_mem _ hline)
      cases mark with
      | header c =>
          rw [List.map_cons, List.filterMap_cons, List.filterMap_cons]
          dsimp only [Mark.line, Mark.change]
          rw [List.filterMap_cons, hrest]
      | forged line =>
          have hnone := h line List.mem_cons_self
          rw [List.map_cons, List.filterMap_cons, List.filterMap_cons]
          dsimp only [Mark.line, Mark.change]
          rw [hnone, hrest]

/-- **A delivery snapshot lists the changed files** where each header is clear and what
lies between the headers is quiet; where nothing between the headers is cut, only there. -/
theorem deliveryDiffFiles_listed {p : Probed} {text : Str} (h : workingTreeDiff p = some text) :
    ((∀ c ∈ p.changes, c.Clear) ∧ Quiet p.marks → deliveryDiffFiles text = p.newPaths) ∧
      (Unforged p.marks ∧ SameHeaders p.changes →
        (deliveryDiffFiles text = p.newPaths ↔ ∀ c ∈ p.changes, c.Clear)) := by
  have hlisted : (∀ c ∈ p.changes, c.Clear) ∧ Quiet p.marks →
      deliveryDiffFiles text = p.newPaths := by
    rintro ⟨hclear, hquiet⟩
    have hheaders : ∀ c, Mark.header c ∈ p.marks → c.Clear := by
      intro c hc
      refine hclear c ?_
      rw [← change_probed]
      exact List.mem_filterMap.mpr ⟨_, hc, rfl⟩
    rw [deliveryDiffFiles, headerLines_text h, names_of_marks hheaders hquiet, change_probed]
    rfl
  refine ⟨hlisted, fun ⟨hunforged, hsame⟩ => ⟨fun hfiles c hc => ?_, fun hclear =>
    hlisted ⟨hclear, hunforged.quiet⟩⟩⟩
  rw [deliveryDiffFiles, headerLines_text h, names_unforged hunforged, change_probed] at hfiles
  refine clear_of_cutName (filterMap_of_eraseDups_eq (fun c hc d hd htext => ?_) hfiles c hc)
  rw [hsame c hc d hd htext]

/-- A modified file. -/
def oneModified (path : Path) : Probed where
  status := []
  revision := ascii "HEAD"
  tracked := [⟨.modify path, [], [], .none⟩]
  untracked := []

theorem oldMode_known : "old mode " ∈ extendedKeywords := by
  decide

theorem newMode_known : "new mode " ∈ extendedKeywords := by
  decide

theorem executable_oneLine : 10 ∉ ascii "100755" := by
  decide

/-- A file that becomes executable. -/
def madeExecutable : Change where
  kind := .modify fileM
  before := [⟨"old mode ", oldMode_known, ascii "100644", fileMode_oneLine⟩,
    ⟨"new mode ", newMode_known, ascii "100755", executable_oneLine⟩]
  after := []
  content := .none

/-- A file with a new mode, a deleted one, a renamed one, and an untracked empty one. -/
def severalChanges : Probed where
  status := []
  revision := ascii "HEAD"
  tracked := [madeExecutable, deletedEmpty, renamedFile]
  untracked := [([120], [addedEmpty])]

/-- Each file is listed under the path it has in the end, the deleted one under its old path. -/
theorem deliveryDiffFiles_listed_sample :
    ∃ text, workingTreeDiff severalChanges = some text ∧
      deliveryDiffFiles text = [[109], [121], [110], [120]] := by
  obtain ⟨text, htext⟩ := Option.isSome_iff_exists.mp
    (show (workingTreeDiff severalChanges).isSome = true by decide +kernel)
  have hclear : ∀ c ∈ severalChanges.changes, c.Clear := by
    simp only [severalChanges, Probed.changes, List.flatMap_cons, List.flatMap_nil,
      List.append_nil, List.cons_append, List.nil_append, List.forall_mem_cons, List.not_mem_nil,
      false_implies, implies_true, and_true]
    refine ⟨⟨?_, ?_⟩, ⟨?_, ?_⟩, ⟨?_, ?_⟩, ?_, ?_⟩ <;> decide +kernel
  have hmarks : ∀ mark ∈ severalChanges.marks, mark.change.isSome = true := by decide +kernel
  have hquiet : Quiet severalChanges.marks := by
    intro front line back h
    have hforged := hmarks (.forged line) (h ▸ List.mem_append_right _ List.mem_cons_self)
    exact absurd hforged Bool.false_ne_true
  have hpaths : severalChanges.newPaths = [[109], [121], [110], [120]] := by decide +kernel
  exact ⟨text, htext, ((deliveryDiffFiles_listed htext).1 ⟨hclear, hquiet⟩).trans hpaths⟩

/-- **A file whose path Git quotes is not listed.** -/
theorem quoted_file_not_listed :
    ¬∀ (p : Probed) (text : Str), workingTreeDiff p = some text →
      deliveryDiffFiles text = p.newPaths := by
  intro h
  have hread : (workingTreeDiff (oneModified ⟨[195, 169], by decide, by decide⟩)).map
      deliveryDiffFiles = some [] := by decide +kernel
  obtain ⟨text, htext, hfiles⟩ := Option.map_eq_some_iff.mp hread
  have hlisted := h _ text htext
  rw [hfiles] at hlisted
  revert hlisted
  decide +kernel

end OpenCollab.PatchPaths
