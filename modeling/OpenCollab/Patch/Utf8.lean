import OpenCollab.Patch.Paths

/-!
# OpenCollab.Patch.Utf8

The codec of `Patch.Paths` is UTF-8: decoding undoes encoding, and a byte string that is
decoded without an escaped byte is an encoding.

* `decodeFirst_encodeChar`, `decodeFirst_eq_some` — one code point;
* `decodeUtf8_encodeText` — an encoded text is decoded to itself;
* `encodable_decodeUtf8` — the byte strings that are decoded to an encodable text;
* `encodeUtf8_decodeUtf8` — with escaped bytes, every byte string is encoded back;
* `decodeUtf8_append_ascii` — an ASCII character separates what is decoded.
-/

namespace OpenCollab.PatchPaths

/-! ## code points -/

/-- A code point that UTF-8 can hold: not a surrogate. -/
def isScalar (c : Nat) : Bool := decide (c < 0xD800) || decide (0xE000 ≤ c) && decide (c < 0x110000)

theorem isScalar_iff {c : Nat} :
    isScalar c = true ↔ c < 0xD800 ∨ 0xE000 ≤ c ∧ c < 0x110000 := by
  simp only [isScalar, Bool.or_eq_true, Bool.and_eq_true, decide_eq_true_eq]

theorem within_iff {low high b : Nat} : within low high b = true ↔ low ≤ b ∧ b ≤ high := by
  simp only [within, Bool.and_eq_true, decide_eq_true_eq]

theorem encodeChar_ne_nil (c : Nat) : encodeChar c ≠ [] := by
  unfold encodeChar
  split
  · exact List.cons_ne_nil _ _
  · split
    · exact List.cons_ne_nil _ _
    · split <;> exact List.cons_ne_nil _ _

/-- **What a code point is encoded to is decoded to it.** -/
theorem decodeFirst_encodeChar {c : Nat} (h : isScalar c = true) (rest : List Nat) :
    decodeFirst (encodeChar c ++ rest) = some (c, (encodeChar c).length - 1) := by
  rw [isScalar_iff] at h
  unfold encodeChar
  split
  · rename_i hone
    simp only [List.cons_append, List.nil_append]
    rw [decodeFirst.eq_def]
    dsimp only
    rw [if_pos hone]
    rfl
  · rename_i hone
    split
    · rename_i htwo
      simp only [List.cons_append, List.nil_append]
      rw [decodeFirst.eq_def]
      dsimp only
      rw [if_neg (by omega), if_pos]
      · refine congrArg some (Prod.ext ?_ rfl)
        dsimp only
        omega
      · rw [Bool.and_eq_true, within_iff, within_iff]
        omega
    · rename_i htwo
      split
      · rename_i hthree
        simp only [List.cons_append, List.nil_append]
        rw [decodeFirst.eq_def]
        dsimp only
        rw [if_neg (by omega), if_neg, if_pos]
        · refine congrArg some (Prod.ext ?_ rfl)
          dsimp only
          omega
        · simp only [Bool.and_eq_true, within_iff]
          refine ⟨⟨by omega, ?_⟩, by omega⟩
          split <;> split <;> omega
        · rw [Bool.and_eq_true, within_iff, within_iff]
          omega
      · rename_i hthree
        simp only [List.cons_append, List.nil_append]
        rw [decodeFirst.eq_def]
        dsimp only
        rw [if_neg (by omega), if_neg, if_neg, if_pos]
        · refine congrArg some (Prod.ext ?_ rfl)
          dsimp only
          omega
        · simp only [Bool.and_eq_true, within_iff]
          refine ⟨⟨⟨by omega, ?_⟩, by omega⟩, by omega⟩
          split <;> split <;> omega
        · simp only [Bool.and_eq_true, within_iff]
          omega
        · rw [Bool.and_eq_true, within_iff, within_iff]
          omega

/-- **What is decoded is the encoding of a code point.** -/
theorem decodeFirst_eq_some {bytes : List Nat} {c following : Nat}
    (h : decodeFirst bytes = some (c, following)) :
    isScalar c = true ∧ following + 1 = (encodeChar c).length ∧
      ∃ rest, bytes = encodeChar c ++ rest := by
  rw [decodeFirst.eq_def] at h
  split at h
  · contradiction
  · rename_i a rest
    split at h
    · rename_i hone
      obtain ⟨rfl, rfl⟩ := Prod.mk.inj (Option.some.inj h)
      rw [encodeChar, if_pos hone, isScalar_iff]
      exact ⟨.inl (by omega), rfl, rest, rfl⟩
    · rename_i hone
      split at h
      · contradiction
      · rename_i b rest
        split at h
        · rename_i htwo
          rw [Bool.and_eq_true, within_iff, within_iff] at htwo
          obtain ⟨rfl, rfl⟩ := Prod.mk.inj (Option.some.inj h)
          rw [encodeChar, if_neg (by omega), if_pos (by omega), isScalar_iff]
          refine ⟨.inl (by omega), rfl, rest, ?_⟩
          simp only [List.cons_append, List.nil_append, List.cons.injEq, and_true]
          omega
        · split at h
          · contradiction
          · rename_i c' rest
            dsimp only at h
            generalize hlow : (if a = 0xE0 then 0xA0 else 0x80) = low at h
            generalize hhigh : (if a = 0xED then 0x9F else 0xBF) = high at h
            split at h
            · rename_i hthree
              simp only [Bool.and_eq_true, within_iff] at hthree
              obtain ⟨rfl, rfl⟩ := Prod.mk.inj (Option.some.inj h)
              obtain ⟨⟨ha, hb⟩, hc⟩ := hthree
              have hbounds : 0x80 ≤ b ∧ b ≤ 0xBF ∧ (a = 0xE0 → 0xA0 ≤ b) ∧ (a = 0xED → b ≤ 0x9F) := by
                split at hlow <;> split at hhigh <;> omega
              rw [encodeChar, if_neg (by omega), if_neg (by omega), if_pos (by omega), isScalar_iff]
              refine ⟨by omega, rfl, rest, ?_⟩
              simp only [List.cons_append, List.nil_append, List.cons.injEq, and_true]
              omega
            · split at h
              · contradiction
              · rename_i d rest
                clear hlow hhigh
                generalize hlow : (if a = 0xF0 then 0x90 else 0x80) = low at h
                generalize hhigh : (if a = 0xF4 then 0x8F else 0xBF) = high at h
                split at h
                · rename_i hfour
                  simp only [Bool.and_eq_true, within_iff] at hfour
                  obtain ⟨rfl, rfl⟩ := Prod.mk.inj (Option.some.inj h)
                  obtain ⟨⟨⟨ha, hb⟩, hc⟩, hd⟩ := hfour
                  have hbounds : 0x80 ≤ b ∧ b ≤ 0xBF ∧ (a = 0xF0 → 0x90 ≤ b) ∧
                      (a = 0xF4 → b ≤ 0x8F) := by
                    split at hlow <;> split at hhigh <;> omega
                  rw [encodeChar, if_neg (by omega), if_neg (by omega), if_neg (by omega),
                    isScalar_iff]
                  refine ⟨by omega, rfl, rest, ?_⟩
                  simp only [List.cons_append, List.nil_append, List.cons.injEq, and_true]
                  omega
                · contradiction

/-! ## texts -/

/-- No code point of the text is a surrogate. -/
def Encodable (text : Str) : Prop := ∀ c ∈ text, isScalar c = true

instance (text : Str) : Decidable (Encodable text) :=
  inferInstanceAs (Decidable (∀ c ∈ text, isScalar c = true))

/-- The bytes of a text. -/
def encodeText (text : Str) : List Nat := text.flatMap encodeChar

/-- The bytes are UTF-8. -/
def IsUtf8 (bytes : List Nat) : Prop := ∃ text, Encodable text ∧ encodeText text = bytes

@[simp] theorem encodable_nil : Encodable [] := fun _ h => absurd h List.not_mem_nil

theorem encodable_append {text rest : Str} :
    Encodable (text ++ rest) ↔ Encodable text ∧ Encodable rest := List.forall_mem_append

theorem decodeUtf8_skip (skipped rest : List Nat) :
    decodeUtf8 skipped.length (skipped ++ rest) = decodeUtf8 0 rest := by
  induction skipped with
  | nil => rfl
  | cons b skipped ih =>
      rw [List.length_cons, List.cons_append, decodeUtf8]
      exact ih

/-- A code point at the start is decoded first. -/
theorem decodeUtf8_encodeChar {c : Nat} (h : isScalar c = true) (rest : List Nat) :
    decodeUtf8 0 (encodeChar c ++ rest) = c :: decodeUtf8 0 rest := by
  have hfirst := decodeFirst_encodeChar h rest
  obtain ⟨b, more, hbytes⟩ := List.exists_cons_of_ne_nil (encodeChar_ne_nil c)
  rw [hbytes, List.length_cons, Nat.add_sub_cancel] at hfirst
  rw [hbytes, List.cons_append, decodeUtf8, ← List.cons_append, hfirst]
  dsimp only
  rw [decodeUtf8_skip]

/-- **An encoded text is decoded to itself.** -/
theorem decodeUtf8_encodeText {text : Str} (h : Encodable text) :
    decodeUtf8 0 (encodeText text) = text := by
  induction text with
  | nil => rfl
  | cons c text ih =>
      rw [Encodable, List.forall_mem_cons] at h
      rw [encodeText, List.flatMap_cons, decodeUtf8_encodeChar h.1]
      exact congrArg _ (ih h.2)

/-- A byte that starts no code point is none of ASCII. -/
theorem le_of_decodeFirst_eq_none {b : Nat} {rest : List Nat}
    (h : decodeFirst (b :: rest) = none) : 128 ≤ b := by
  by_contra hlow
  rw [decodeFirst.eq_def] at h
  dsimp only at h
  rw [if_pos (by omega)] at h
  contradiction

/-- Bytes are decoded code point by code point, a byte that starts none by itself. -/
theorem decodeUtf8_cases (b : Nat) (bytes : List Nat) :
    (128 ≤ b ∧ decodeFirst (b :: bytes) = none ∧
      decodeUtf8 0 (b :: bytes) = (0xDC00 + b) :: decodeUtf8 0 bytes) ∨
    ∃ c rest, isScalar c = true ∧ b :: bytes = encodeChar c ++ rest ∧
      rest.length ≤ bytes.length ∧ decodeUtf8 0 (b :: bytes) = c :: decodeUtf8 0 rest := by
  cases hfirst : decodeFirst (b :: bytes) with
  | none =>
      refine .inl ⟨le_of_decodeFirst_eq_none hfirst, rfl, ?_⟩
      rw [decodeUtf8, hfirst]
  | some found =>
      obtain ⟨c, following⟩ := found
      obtain ⟨hscalar, -, rest, hbytes⟩ := decodeFirst_eq_some hfirst
      have hpos := List.length_pos_of_ne_nil (encodeChar_ne_nil c)
      have hlen := congrArg List.length hbytes
      rw [List.length_cons, List.length_append] at hlen
      refine .inr ⟨c, rest, hscalar, hbytes, by omega, ?_⟩
      rw [hbytes, decodeUtf8_encodeChar hscalar]

/-- What is decoded without an escaped byte is encoded to the same bytes. -/
theorem encodeText_decodeUtf8 {bytes : List Nat} (hsmall : ∀ b ∈ bytes, b < 256)
    (h : Encodable (decodeUtf8 0 bytes)) : encodeText (decodeUtf8 0 bytes) = bytes := by
  induction hlen : bytes.length using Nat.strongRecOn generalizing bytes with
  | _ n ih =>
      cases bytes with
      | nil => rfl
      | cons b bytes =>
          have hb := hsmall b List.mem_cons_self
          rw [List.length_cons] at hlen
          obtain ⟨hhigh, -, hdecode⟩ | ⟨c, rest, hscalar, hbytes, hle, hdecode⟩ :=
            decodeUtf8_cases b bytes
          · -- an escaped byte is a surrogate
            rw [hdecode] at h
            have hsurrogate := h (0xDC00 + b) List.mem_cons_self
            rw [isScalar_iff] at hsurrogate
            omega
          · rw [hdecode, Encodable, List.forall_mem_cons] at h
            have hback := ih rest.length (by omega)
              (fun b hb => hsmall b (hbytes ▸ List.mem_append_right _ hb)) h.2 rfl
            rw [encodeText] at hback
            rw [hdecode, encodeText, List.flatMap_cons, hback, hbytes]

/-- **The bytes that are decoded to an encodable text** are UTF-8. -/
theorem encodable_decodeUtf8 {bytes : List Nat} (hsmall : ∀ b ∈ bytes, b < 256) :
    Encodable (decodeUtf8 0 bytes) ↔ IsUtf8 bytes := by
  constructor
  · intro h
    exact ⟨_, h, encodeText_decodeUtf8 hsmall h⟩
  · intro ⟨text, htext, hbytes⟩
    rw [← hbytes, decodeUtf8_encodeText htext]
    exact htext

/-! ## escaped bytes -/

/-- One character of `text.encode("utf-8", errors="surrogateescape")`: an escaped byte is
itself; `none`: any other surrogate, on which the call raises. -/
def encodeEscaped (c : Nat) : Option (List Nat) :=
  if 0xDC80 ≤ c ∧ c ≤ 0xDCFF then some [c - 0xDC00]
  else if isScalar c then some (encodeChar c)
  else none

/-- `text.encode("utf-8", errors="surrogateescape")`. -/
def encodeUtf8 : Str → Option (List Nat)
  | [] => some []
  | c :: text => do return (← encodeEscaped c) ++ (← encodeUtf8 text)

/-- **Bytes are encoded back from what they are decoded to.** -/
theorem encodeUtf8_decodeUtf8 {bytes : List Nat} (hsmall : ∀ b ∈ bytes, b < 256) :
    encodeUtf8 (decodeUtf8 0 bytes) = some bytes := by
  induction hlen : bytes.length using Nat.strongRecOn generalizing bytes with
  | _ n ih =>
      cases bytes with
      | nil => rfl
      | cons b bytes =>
          have hb := hsmall b List.mem_cons_self
          rw [List.length_cons] at hlen
          obtain ⟨hhigh, -, hdecode⟩ | ⟨c, rest, hscalar, hbytes, hle, hdecode⟩ :=
            decodeUtf8_cases b bytes
          · have hrest := ih bytes.length (by omega)
              (fun b hb => hsmall b (List.mem_cons_of_mem _ hb)) rfl
            rw [hdecode, encodeUtf8, encodeEscaped, if_pos (by omega), hrest, Nat.add_sub_cancel_left]
            rfl
          · have hrest := ih rest.length (by omega)
              (fun b hb => hsmall b (hbytes ▸ List.mem_append_right _ hb)) rfl
            have hnot : ¬(0xDC80 ≤ c ∧ c ≤ 0xDCFF) := by
              rw [isScalar_iff] at hscalar
              omega
            rw [hdecode, encodeUtf8, encodeEscaped, if_neg hnot, if_pos hscalar, hrest, hbytes]
            rfl

theorem encodeChar_all_high {c : Nat} (h : ¬c < 128) : ∀ b ∈ encodeChar c, 128 ≤ b := by
  rw [encodeChar, if_neg h]
  intro b hb
  split at hb
  · simp only [List.mem_cons, List.not_mem_nil, or_false] at hb
    omega
  · split at hb
    · simp only [List.mem_cons, List.not_mem_nil, or_false] at hb
      omega
    · simp only [List.mem_cons, List.not_mem_nil, or_false] at hb
      omega

/-- A start that is no code point stays none in front of an ASCII character. -/
theorem decodeFirst_append_ascii {bytes : List Nat} {d : Nat} (hd : d < 128)
    (h : decodeFirst bytes = none) (hne : bytes ≠ []) (rest : List Nat) :
    decodeFirst (bytes ++ d :: rest) = none := by
  cases hfirst : decodeFirst (bytes ++ d :: rest) with
  | none => rfl
  | some found =>
      obtain ⟨c, following⟩ := found
      obtain ⟨hscalar, hlen, more, hbytes⟩ := decodeFirst_eq_some hfirst
      -- the code point ends before the ASCII character, or is it
      obtain ⟨inner, hinner, hrest⟩ | ⟨outer, houter, -⟩ := List.append_eq_append_iff.mp hbytes
      · cases inner with
        | nil =>
            rw [List.append_nil] at hinner
            rw [← hinner, ← List.append_nil (encodeChar c), decodeFirst_encodeChar hscalar] at h
            contradiction
        | cons e inner =>
            obtain ⟨rfl, -⟩ := List.cons.inj hrest
            have hmem : d ∈ encodeChar c := by
              rw [hinner]
              exact List.mem_append_right _ List.mem_cons_self
            by_cases hc : c < 128
            · rw [encodeChar_of_lt hc] at hinner
              have hlen := congrArg List.length hinner
              have hpos := List.length_pos_of_ne_nil hne
              simp only [List.length_nil, List.length_append, List.length_cons] at hlen
              omega
            · have := encodeChar_all_high hc d hmem
              omega
      · rw [houter, decodeFirst_encodeChar hscalar] at h
        contradiction

/-- **An ASCII character separates what is decoded in front of it from what is decoded
behind.** -/
theorem decodeUtf8_append_ascii {d : Nat} (hd : d < 128) (bytes rest : List Nat) :
    decodeUtf8 0 (bytes ++ d :: rest) = decodeUtf8 0 bytes ++ d :: decodeUtf8 0 rest := by
  induction hlen : bytes.length using Nat.strongRecOn generalizing bytes with
  | _ n ih =>
      cases bytes with
      | nil => exact decodeUtf8_ascii hd rest
      | cons b bytes =>
          rw [List.length_cons] at hlen
          obtain ⟨-, hfirst, hdecode⟩ | ⟨c, more, hscalar, hbytes, hle, hdecode⟩ :=
            decodeUtf8_cases b bytes
          · have hnone := decodeFirst_append_ascii hd hfirst (List.cons_ne_nil _ _) rest
            rw [List.cons_append] at hnone
            rw [hdecode, List.cons_append, decodeUtf8, hnone, ih bytes.length (by omega) bytes rfl]
            rfl
          · rw [hdecode, hbytes, List.append_assoc, decodeUtf8_encodeChar hscalar,
              ih more.length (by omega) more rfl]
            rfl

/-- ASCII characters are decoded to themselves. -/
theorem decodeUtf8_ascii_append {start : Str} (h : ∀ c ∈ start, c < 128) (rest : List Nat) :
    decodeUtf8 0 (start ++ rest) = start ++ decodeUtf8 0 rest := by
  induction start with
  | nil => rfl
  | cons c start ih =>
      rw [List.forall_mem_cons] at h
      rw [List.cons_append, decodeUtf8_ascii h.1, ih h.2]
      rfl

/-- An ASCII character is decoded from itself only. -/
theorem decodeUtf8_eq_cons {bytes : List Nat} {d : Nat} (hd : d < 128) {rest : Str}
    (h : decodeUtf8 0 bytes = d :: rest) :
    ∃ more, bytes = d :: more ∧ decodeUtf8 0 more = rest := by
  cases bytes with
  | nil => contradiction
  | cons b bytes =>
      obtain ⟨hhigh, -, hdecode⟩ | ⟨c, more, -, hbytes, -, hdecode⟩ := decodeUtf8_cases b bytes
      · rw [hdecode] at h
        obtain ⟨hb, -⟩ := List.cons.inj h
        omega
      · rw [hdecode] at h
        obtain ⟨rfl, hrest⟩ := List.cons.inj h
        rw [encodeChar_of_lt hd] at hbytes
        exact ⟨more, hbytes, hrest⟩

/-- An ASCII character of the text is a byte. -/
theorem mem_of_mem_decodeUtf8 {bytes : List Nat} {d : Nat} (hd : d < 128)
    (h : d ∈ decodeUtf8 0 bytes) : d ∈ bytes := by
  induction hlen : bytes.length using Nat.strongRecOn generalizing bytes with
  | _ n ih =>
      cases bytes with
      | nil => exact h
      | cons b bytes =>
          rw [List.length_cons] at hlen
          obtain ⟨hhigh, -, hdecode⟩ | ⟨c, more, -, hbytes, hle, hdecode⟩ := decodeUtf8_cases b bytes
          · rw [hdecode, List.mem_cons] at h
            obtain rfl | h := h
            · omega
            · exact List.mem_cons_of_mem _ (ih bytes.length (by omega) h rfl)
          · rw [hdecode, List.mem_cons] at h
            rw [hbytes]
            obtain rfl | h := h
            · rw [encodeChar_of_lt hd]
              exact List.mem_cons_self
            · exact List.mem_append_right _ (ih more.length (by omega) h rfl)

/-- A text that starts with ASCII characters is decoded from bytes that do. -/
theorem isPrefixOf_decodeUtf8 {start : Str} (hstart : ∀ c ∈ start, c < 128) {bytes : List Nat} :
    start.isPrefixOf (decodeUtf8 0 bytes) = start.isPrefixOf bytes := by
  rw [Bool.eq_iff_iff, List.isPrefixOf_iff_prefix, List.isPrefixOf_iff_prefix]
  constructor
  · intro h
    induction start generalizing bytes with
    | nil => exact List.nil_prefix
    | cons c start ih =>
        rw [List.forall_mem_cons] at hstart
        obtain ⟨rest, hrest⟩ := h
        obtain ⟨more, rfl, hmore⟩ := decodeUtf8_eq_cons hstart.1 hrest.symm
        rw [List.cons_prefix_cons]
        exact ⟨rfl, ih hstart.2 ⟨rest, hmore.symm⟩⟩
  · intro ⟨rest, hrest⟩
    rw [← hrest, decodeUtf8_ascii_append hstart]
    exact List.prefix_append _ _

end OpenCollab.PatchPaths
