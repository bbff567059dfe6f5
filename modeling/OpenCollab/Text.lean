/-!
# OpenCollab.Text

The Python string tests the program makes, on Lean strings of Unicode scalar
values, and the width of a printed number (`length_toString_mono`).
-/

namespace OpenCollab

/-- `str.isspace` of one character. -/
def isSpaceChar (c : Char) : Bool :=
  let n := c.toNat
  (9 ≤ n && n ≤ 13) || (28 ≤ n && n ≤ 32) || n = 0x85 || n = 0xA0 || n = 0x1680 ||
    (0x2000 ≤ n && n ≤ 0x200A) || n = 0x2028 || n = 0x2029 || n = 0x202F || n = 0x205F || n = 0x3000

/-- `not text.strip()`: nothing but whitespace. -/
def isBlank (text : String) : Bool := text.toList.all isSpaceChar

/-- `text.strip()`. -/
def strip (text : String) : String :=
  String.ofList ((text.toList.dropWhile isSpaceChar).reverse.dropWhile isSpaceChar).reverse

/-- A smaller number prints no wider. -/
theorem length_toString_mono {m n : Nat} (h : m ≤ n) :
    (toString m).length ≤ (toString n).length := by
  have hlen : ∀ k : Nat, (toString k).length = (Nat.toDigits 10 k).length := by
    intro k
    rw [Nat.toString_eq_ofList_toDigits, String.length_ofList]
  rw [hlen, hlen, Nat.length_toDigits_le_iff (by decide) Nat.length_toDigits_pos]
  have hn := (Nat.length_toDigits_le_iff (b := 10) (n := n) (by decide) Nat.length_toDigits_pos).1
    (Nat.le_refl _)
  exact Nat.lt_of_le_of_lt h hn

end OpenCollab
