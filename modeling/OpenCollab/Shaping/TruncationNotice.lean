import OpenCollab.Shaping.ToolBudget
import OpenCollab.Text

/-!
# OpenCollab.Shaping.TruncationNotice

What the notice of a capped tool result says it hides.  The digits of the number
change the width of the notice, so the head is recomputed until the width
stabilises; `headLen_mono` says that the head only grows on the way, hence the
notice only shrinks, and the parts always fit (`fits`).

* `shapedContent_eq_parts` — head, whole notice, tail;
* `printed_exact_iff` — the number counts what is hidden when no tail is kept,
  and otherwise only where nothing but the notice is: the tail is counted as
  hidden.
-/

namespace OpenCollab.PerToolResultBudgetShaper

/-! ## the width of the notice -/

/-- A smaller number makes no wider notice. -/
theorem length_notice_mono {m n : Nat} (h : m ≤ n) : (notice m).length ≤ (notice n).length := by
  delta notice
  simp only [String.length_append]
  have hdigits := length_toString_mono h
  omega

/-! ## the rounds -/

variable (cfg : PerToolResultBudgetShaper) (content : String)

/-- **The head only grows** from round to round, as the notice shrinks. -/
theorem headLen_mono (rounds : Nat) :
    cfg.headLen content rounds ≤ cfg.headLen content (rounds + 1) := by
  induction rounds with
  | zero => exact Nat.zero_le _
  | succ rounds ih =>
      have hnotice := length_notice_mono (Nat.sub_le_sub_left ih content.length)
      have hbudget : cfg.sourceBudget (notice (content.length - cfg.headLen content rounds)) ≤
          cfg.sourceBudget (notice (content.length - cfg.headLen content (rounds + 1))) :=
        Nat.sub_le_sub_left hnotice cfg.maxChars
      rw [headLen, headLen]
      split
      · exact Nat.div_le_div_right (Nat.mul_le_mul_right 3 hbudget)
      · exact hbudget

/-- The parts of a capped result: the length of the head, the number the notice
prints, and the length of the tail. -/
def parts : Nat × Nat × Nat :=
  let printed := content.length - cfg.headLen content 3
  if cfg.preserveTail then
    let budget := cfg.sourceBudget (notice printed)
    (budget * 3 / 8, printed, budget - budget * 3 / 8)
  else (cfg.headLen content 3, printed, 0)

/-- The head, the notice and the tail fit the cap. -/
theorem fits (hnotice : (notice content.length).length ≤ cfg.maxChars) :
    (cfg.parts content).1 + (notice (cfg.parts content).2.1).length + (cfg.parts content).2.2 ≤
      cfg.maxChars := by
  have hmarker := length_notice_mono (Nat.sub_le content.length (cfg.headLen content 3))
  simp only [parts]
  split
  · simp only [sourceBudget]
    omega
  · rename_i htail
    have hlast : cfg.headLen content 3 =
        cfg.sourceBudget (notice (content.length - cfg.headLen content 2)) := by
      rw [headLen, if_neg htail]
    have hgrow : cfg.headLen content 2 ≤ cfg.headLen content 3 := cfg.headLen_mono content 2
    have hwidth := length_notice_mono (Nat.sub_le_sub_left hgrow content.length)
    have hprev := length_notice_mono (Nat.sub_le content.length (cfg.headLen content 2))
    simp only [sourceBudget] at hlast
    simp only
    omega

/-- **A capped result is a head of the content, the whole notice and a tail.** -/
theorem shapedContent_eq_parts (hnotice : (notice content.length).length ≤ cfg.maxChars) :
    cfg.shapedContent content =
      takeChars (cfg.parts content).1 content ++ notice (cfg.parts content).2.1 ++
        takeLastChars (cfg.parts content).2.2 content := by
  have hall : ∀ text : String, text.length ≤ cfg.maxChars → takeChars cfg.maxChars text = text := by
    intro text htext
    rw [takeChars, List.take_of_length_le (by rwa [String.length_toList]), String.ofList_toList]
  have hlast : ∀ n, (takeLastChars n content).length ≤ n := by
    intro n
    simp only [takeLastChars, String.length_ofList, List.length_drop, String.length_toList]
    omega
  have hfits := cfg.fits content hnotice
  cases htail : cfg.preserveTail with
  | true =>
      simp only [parts, htail, if_true] at hfits ⊢
      simp only [shapedContent, htail, if_true]
      apply hall
      have hbound := hlast (cfg.sourceBudget (notice (content.length - cfg.headLen content 3)) -
        cfg.sourceBudget (notice (content.length - cfg.headLen content 3)) * 3 / 8)
      simp only [String.length_append, length_takeChars]
      omega
  | false =>
      have hnone : takeLastChars 0 content = "" := by
        simp [takeLastChars, ← String.length_toList]
      simp only [parts, htail, Bool.false_eq_true, if_false] at hfits ⊢
      simp only [shapedContent, htail, Bool.false_eq_true, if_false, hnone, String.append_empty]
      apply hall
      simp only [String.length_append, length_takeChars]
      omega

/-- The parts of a result over the cap do not overlap. -/
theorem parts_lt (hnotice : (notice content.length).length ≤ cfg.maxChars)
    (hlong : cfg.maxChars < content.length) :
    (cfg.parts content).1 + (cfg.parts content).2.2 < content.length := by
  have hfits := cfg.fits content hnotice
  omega

/-! ## what the notice counts -/

/-- **The number of the notice is exact without a tail, and with one only where
the cap leaves room for the notice alone**: with a tail it counts the characters
behind the head, those of the tail included. -/
theorem printed_exact_iff (hnotice : (notice content.length).length ≤ cfg.maxChars)
    (hlong : cfg.maxChars < content.length) :
    (cfg.shapedContent content =
        takeChars (cfg.parts content).1 content ++ notice (cfg.parts content).2.1 ++
          takeLastChars (cfg.parts content).2.2 content ∧
      (cfg.shapedContent content).length ≤ cfg.maxChars ∧
      (cfg.parts content).2.1 =
        content.length - ((cfg.parts content).1 + (cfg.parts content).2.2)) ↔
      cfg.preserveTail = false ∨ cfg.maxChars = (notice content.length).length := by
  have hparts := cfg.shapedContent_eq_parts content hnotice
  have hlen := cfg.length_shapedContent_le content
  have hroom := cfg.parts_lt content hnotice hlong
  simp only [hlen, true_and]
  rw [and_iff_right hparts]
  cases htail : cfg.preserveTail with
  | false => simp [parts, htail]
  | true =>
      simp only [Bool.true_eq_false, false_or]
      have hlast : cfg.headLen content 3 =
          cfg.sourceBudget (notice (content.length - cfg.headLen content 2)) * 3 / 8 := by
        rw [headLen, if_pos htail]
      have hgrow : cfg.headLen content 2 ≤ cfg.headLen content 3 := cfg.headLen_mono content 2
      have hwidth := length_notice_mono (Nat.sub_le_sub_left hgrow content.length)
      simp only [parts, htail, if_true] at hroom ⊢
      constructor
      · intro hexact
        -- the head is at most three eighths of a budget that is no larger than the final one
        have hzero : cfg.headLen content 3 = 0 := by
          simp only [sourceBudget] at hlast hexact hroom
          omega
        simp only [hzero, sourceBudget, Nat.sub_zero] at hexact hroom
        omega
      · intro hcap
        have hzero : ∀ rounds, cfg.headLen content rounds = 0 := by
          intro rounds
          induction rounds with
          | zero => rfl
          | succ rounds ih =>
              rw [headLen, if_pos htail, ih, Nat.sub_zero, sourceBudget, hcap, Nat.sub_self]
        simp only [hzero, Nat.sub_zero, sourceBudget, hcap, Nat.sub_self]
        omega

/-- A text of `n` letters. -/
def letters (n : Nat) : String := String.ofList (List.replicate n 'a')

theorem length_letters (n : Nat) : (letters n).length = n := by
  rw [letters, String.length_ofList, List.length_replicate]

/-- A cap of 200 characters. -/
def capped (preserveTail : Bool) : PerToolResultBudgetShaper where
  maxChars := 200
  preserveTail

/-- 300 characters without a tail. -/
theorem printed_exact_iff_head :
    (notice (letters 300).length).length ≤ 200 ∧
    ((capped false).parts (letters 300)).2.1 = (letters 300).length -
      (((capped false).parts (letters 300)).1 + ((capped false).parts (letters 300)).2.2) := by
  have hnotice : (notice (letters 300).length).length ≤ 200 := by
    rw [length_letters]
    decide
  have hlong : 200 < (letters 300).length := by
    rw [length_letters]
    decide
  exact ⟨hnotice, (((capped false).printed_exact_iff (letters 300) hnotice hlong).2 (Or.inl rfl)).2.2⟩

/-- 300 characters with a tail: 35 characters are shown in front and 60 behind, 205
are hidden, and the notice says 265. -/
theorem printed_counts_tail :
    (notice (letters 300).length).length ≤ 200 ∧
    (capped true).parts (letters 300) = (35, 265, 60) ∧ 265 ≠ (letters 300).length - (35 + 60) := by
  have hwide : (notice 300).length = 105 := by decide
  have hwide' : (notice 265).length = 105 := by decide
  have htail : (capped true).preserveTail = true := rfl
  have hbudget {dropped : Nat} (h : (notice dropped).length = 105) :
      (capped true).sourceBudget (notice dropped) = 95 := by
    rw [sourceBudget, h]
    rfl
  have hround {rounds dropped : Nat}
      (hdropped : 300 - (capped true).headLen (letters 300) rounds = dropped)
      (h : (notice dropped).length = 105) :
      (capped true).headLen (letters 300) (rounds + 1) = 35 := by
    rw [headLen, length_letters, hdropped, if_pos htail, hbudget h]
  have hfirst : (capped true).headLen (letters 300) 1 = 35 := hround rfl hwide
  have hsecond : (capped true).headLen (letters 300) 2 = 35 := hround (by rw [hfirst]) hwide'
  have hthird : (capped true).headLen (letters 300) 3 = 35 := hround (by rw [hsecond]) hwide'
  have hparts : (capped true).parts (letters 300) = (35, 265, 60) := by
    rw [parts, length_letters, hthird, if_pos htail, hbudget hwide']
  rw [length_letters]
  exact ⟨by rw [hwide]; decide, hparts, by decide⟩

end OpenCollab.PerToolResultBudgetShaper
