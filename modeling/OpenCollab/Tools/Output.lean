import OpenCollab.Lib.Settle
import OpenCollab.Shaping.ToolBudget
import OpenCollab.Text

/-!
# OpenCollab.Tools.Output

`adapters/tools/_output.py`: the head-and-tail truncation of tool output.

The marker prints how many characters are dropped, and the width of the marker
decides how many that are; `truncate` repeats the two until they agree.

* `actualDropped_mono` — a marker that prints more leaves no less to drop, so the
  number only grows from round to round;
* `settles` — the loop ends, after at most as many rounds as the text has characters;
* `truncated_eq` — where the number has settled, what is kept is a head, the whole
  marker and a tail, and the number is the number of the characters between them.
-/

namespace OpenCollab.Tools

open FixedPoint

/-- How `truncate` raises. -/
inductive OutputError where
  | valueError (message : String)
  | assertionError
deriving DecidableEq, Repr

/-- `require_positive_int`, of a value that is an integer. -/
def requirePositiveInt (value : Int) (name : String) : Except OutputError Nat :=
  if value ≤ 0 then .error (.valueError (name ++ " must be a positive integer"))
  else .ok value.toNat

/-- The marker that stands for the dropped characters. -/
def marker (label : Option String) (dropped : Nat) : String :=
  match label with
  | some label => "\n\n... [" ++ toString dropped ++ " chars of " ++ label ++ " truncated] ...\n\n"
  | none => "\n\n... [" ++ toString dropped ++ " chars truncated] ...\n\n"

/-- `source_budget`: what the cap leaves beside the marker. -/
def sourceBudget (maxChars : Nat) (label : Option String) (dropped : Nat) : Nat :=
  maxChars - (marker label dropped).length

/-- `actual_dropped`: what is dropped beside the marker that prints `dropped`. -/
def actualDropped (text : String) (maxChars : Nat) (label : Option String) (dropped : Nat) : Nat :=
  text.length - sourceBudget maxChars label dropped

/-- What `truncate` returns once the number has settled. -/
def truncated (text : String) (maxChars : Nat) (label : Option String) (dropped : Nat) :
    Except OutputError String :=
  if maxChars ≤ (marker label dropped).length then .ok (takeChars maxChars (marker label dropped))
  else
    let budget := sourceBudget maxChars label dropped
    let head := (budget + 1) / 2
    let tail := budget - head
    let result := takeChars head text ++ marker label dropped ++ takeLastChars tail text
    if result.length ≤ maxChars then .ok result else .error .assertionError

/-- `truncate`, with at most `rounds` rounds of its loop. -/
def truncate (rounds : Nat) (text : String) (maxChars : Int) (label : Option String) :
    Option (Except OutputError String) :=
  match requirePositiveInt maxChars "max_chars" with
  | .error error => some (.error error)
  | .ok maxChars =>
      if text.length ≤ maxChars then some (.ok text)
      else
        (settle (actualDropped text maxChars label) rounds (text.length - maxChars)).map
          (truncated text maxChars label)

example : truncate 9 "abcdefghijklmnopqrstuvwxyzabcdefghijklmnopqrstuvwxyz" 40 none =
    some (.ok "abcd\n\n... [44 chars truncated] ...\n\nwxyz") := by decide +kernel

/-! ## the rounds -/

variable (text : String) (maxChars : Nat) (label : Option String)

/-- A marker with a greater number is no shorter. -/
theorem length_marker_mono {m n : Nat} (h : m ≤ n) :
    (marker label m).length ≤ (marker label n).length := by
  have hdigits := length_toString_mono h
  cases label with
  | none =>
      simp only [marker, String.length_append]
      omega
  | some label =>
      simp only [marker, String.length_append]
      omega

/-- **A marker with a greater number leaves no less to drop.** -/
theorem actualDropped_mono {m n : Nat} (h : m ≤ n) :
    actualDropped text maxChars label m ≤ actualDropped text maxChars label n := by
  have hwidth := length_marker_mono label h
  simp only [actualDropped, sourceBudget]
  omega

/-- **The loop ends**: the number grows until it settles, and it is bounded by
the length of the text. -/
theorem settles {rounds : Nat} (hrounds : text.length < rounds) :
    ∃ dropped, settle (actualDropped text maxChars label) rounds (text.length - maxChars) =
      some dropped := by
  have hstart : text.length - maxChars ≤
      actualDropped text maxChars label (text.length - maxChars) := by
    simp only [actualDropped, sourceBudget]
    omega
  have hchange : ∀ dropped, dropped ≤ actualDropped text maxChars label dropped →
      actualDropped text maxChars label dropped ≠ dropped →
      actualDropped text maxChars label dropped ≤
          actualDropped text maxChars label (actualDropped text maxChars label dropped) ∧
        text.length - actualDropped text maxChars label dropped < text.length - dropped := by
    intro dropped hle hne
    have hbound : actualDropped text maxChars label dropped ≤ text.length := Nat.sub_le _ _
    exact ⟨actualDropped_mono text maxChars label hle, by omega⟩
  obtain ⟨dropped, hsettle, -⟩ := settle_of_room
    (fun dropped => dropped ≤ actualDropped text maxChars label dropped)
    (fun dropped => text.length - dropped) hchange hstart
    (Nat.lt_of_le_of_lt (Nat.sub_le _ _) hrounds)
  exact ⟨dropped, hsettle⟩

/-! ## what is kept -/

/-- A text is its first characters, those between, and its last ones. -/
theorem chars_split (head tail : Nat) (h : head + tail ≤ text.length) :
    ∃ hidden : String, text = takeChars head text ++ hidden ++ takeLastChars tail text ∧
      hidden.length = text.length - (head + tail) := by
  have hlen : text.toList.length = text.length := String.length_toList
  have hmiddle : text.toList = text.toList.take head ++
      ((text.toList.drop head).take (text.length - (head + tail)) ++
        text.toList.drop (text.length - tail)) := by
    have hback : (text.toList.drop head).drop (text.length - (head + tail)) =
        text.toList.drop (text.length - tail) := by
      rw [List.drop_drop]
      congr 1
      omega
    rw [← hback, List.take_append_drop, List.take_append_drop]
  have hhidden : (String.ofList ((text.toList.drop head).take
      (text.length - (head + tail)))).length = text.length - (head + tail) := by
    rw [String.length_ofList, List.length_take, List.length_drop]
    omega
  refine ⟨_, ?_, hhidden⟩
  rw [takeChars, takeLastChars, ← String.ofList_append, ← String.ofList_append, List.append_assoc,
    ← hmiddle, String.ofList_toList]

/-- **A settled number is the number of the characters that are not shown**: what is
kept is a head of the text, the whole marker and a tail. -/
theorem truncated_eq {dropped : Nat} (hlong : maxChars < text.length)
    (hsettled : actualDropped text maxChars label dropped = dropped)
    (hroom : (marker label dropped).length < maxChars) :
    ∃ head hidden tail, text = head ++ hidden ++ tail ∧ hidden.length = dropped ∧
      head.length + (marker label dropped).length + tail.length = maxChars ∧
      truncated text maxChars label dropped = .ok (head ++ marker label dropped ++ tail) := by
  have hbudget : text.length - sourceBudget maxChars label dropped = dropped := hsettled
  have hle : sourceBudget maxChars label dropped + (marker label dropped).length = maxChars := by
    simp only [sourceBudget]
    omega
  obtain ⟨hidden, htext, hhidden⟩ :=
    chars_split text ((sourceBudget maxChars label dropped + 1) / 2)
    (sourceBudget maxChars label dropped - (sourceBudget maxChars label dropped + 1) / 2)
    (by omega)
  have hsum := congrArg String.length htext
  simp only [String.length_append] at hsum
  have hhead : (takeChars ((sourceBudget maxChars label dropped + 1) / 2) text).length =
      (sourceBudget maxChars label dropped + 1) / 2 := by
    rw [length_takeChars]
    omega
  refine ⟨_, hidden, _, htext, by omega, by omega, ?_⟩
  rw [truncated, if_neg (Nat.not_le.2 hroom)]
  simp only
  rw [if_pos]
  simp only [String.length_append]
  omega

/-- A settled number gives a result within the cap. -/
theorem truncated_le {dropped : Nat} (hlong : maxChars < text.length)
    (hsettled : actualDropped text maxChars label dropped = dropped) :
    ∃ result, truncated text maxChars label dropped = .ok result ∧ result.length ≤ maxChars := by
  cases Nat.lt_or_ge (marker label dropped).length maxChars with
  | inl hroom =>
      obtain ⟨head, hidden, tail, -, -, hlen, hresult⟩ :=
        truncated_eq text maxChars label hlong hsettled hroom
      refine ⟨_, hresult, ?_⟩
      simp only [String.length_append]
      omega
  | inr hwide =>
      refine ⟨_, by rw [truncated, if_pos hwide], ?_⟩
      rw [length_takeChars]
      exact Nat.min_le_left _ _

theorem requirePositiveInt_natCast {cap : Nat} (hcap : 0 < cap) (name : String) :
    requirePositiveInt (cap : Int) name = .ok cap := by
  rw [requirePositiveInt, if_neg (by omega), Int.toNat_natCast]

variable {text maxChars label}

/-- A text within the cap. -/
theorem truncate_short (hcap : 0 < maxChars) (hfits : text.length ≤ maxChars) (rounds : Nat) :
    truncate rounds text maxChars label = some (.ok text) := by
  rw [truncate, requirePositiveInt_natCast hcap]
  exact if_pos hfits

/-- **A longer text** is cut at the number that settles. -/
theorem truncate_long (hcap : 0 < maxChars) (hlong : maxChars < text.length) :
    ∃ dropped result,
      (∀ rounds, text.length < rounds →
        settle (actualDropped text maxChars label) rounds (text.length - maxChars) =
          some dropped) ∧
      (∀ rounds, text.length < rounds →
        truncate rounds text maxChars label = some (.ok result)) ∧
      actualDropped text maxChars label dropped = dropped ∧
      truncated text maxChars label dropped = .ok result ∧ result.length ≤ maxChars := by
  obtain ⟨dropped, hsettle⟩ := settles text maxChars label (Nat.lt_succ_self text.length)
  have hany : ∀ rounds, text.length < rounds →
      settle (actualDropped text maxChars label) rounds (text.length - maxChars) =
        some dropped := by
    intro rounds hrounds
    exact settle_le hrounds hsettle
  have hfixed := settle_fixed hsettle
  obtain ⟨result, hresult, hle⟩ := truncated_le text maxChars label hlong hfixed
  refine ⟨dropped, result, hany, fun rounds hrounds => ?_, hfixed, hresult, hle⟩
  rw [truncate, requirePositiveInt_natCast hcap]
  simp only [if_neg (Nat.not_le.2 hlong), hany rounds hrounds, Option.map_some, hresult]

variable (text label)

/-- **Truncation ends and tells the truth.**  With every number of rounds beyond the
length of the text, `truncate` returns one result within the cap; a text within the cap
is returned as it is, and of any other, unless the cap cuts the marker itself, the
result is a head, the marker and a tail, and the marker prints how many characters are
in neither. -/
theorem truncate_tells_the_truth (maxChars : Int) (hpositive : 1 ≤ maxChars) :
    ∃ result, (∀ rounds, text.length < rounds →
        truncate rounds text maxChars label = some (.ok result)) ∧
      result.length ≤ maxChars ∧
      (text.length ≤ maxChars → result = text) ∧
      (maxChars < text.length → ∃ dropped,
        (∀ rounds, text.length < rounds →
          settle (actualDropped text maxChars.toNat label) rounds
            (text.length - maxChars.toNat) = some dropped) ∧
        ((marker label dropped).length < maxChars →
          ∃ head hidden tail, text = head ++ hidden ++ tail ∧
            result = head ++ marker label dropped ++ tail ∧ hidden.length = dropped)) := by
  obtain ⟨cap, rfl⟩ : ∃ cap : Nat, maxChars = cap := ⟨maxChars.toNat, by omega⟩
  have hcap : 0 < cap := by omega
  simp only [Int.toNat_natCast, Int.ofNat_le, Int.ofNat_lt]
  cases Nat.lt_or_ge cap text.length with
  | inr hfits =>
      exact ⟨text, fun rounds _ => truncate_short hcap hfits rounds, hfits, fun _ => rfl,
        fun hlong => absurd hlong (Nat.not_lt.2 hfits)⟩
  | inl hlong =>
      obtain ⟨dropped, result, hsettle, hreturns, hfixed, hresult, hle⟩ :=
        @truncate_long text cap label hcap hlong
      refine ⟨result, hreturns, hle, fun hfits => absurd hlong (Nat.not_lt.2 hfits), fun _ =>
        ⟨dropped, hsettle, fun hroom => ?_⟩⟩
      obtain ⟨head, hidden, tail, htext, hcount, -, hshown⟩ :=
        truncated_eq text cap label hlong hfixed hroom
      rw [hresult, Except.ok.injEq] at hshown
      exact ⟨head, hidden, tail, htext, hshown, hcount⟩

/-- A cap with room for a head and a tail beside the marker. -/
theorem truncate_tells_the_truth_sample :
    let text := "abcdefghijklmnopqrstuvwxyzabcdefghijklmnopqrstuvwxyz"
    ∃ result dropped, (∀ rounds, text.length < rounds →
        truncate rounds text 44 (some "log") = some (.ok result)) ∧ result.length ≤ (44 : Int) ∧
      ∃ head hidden tail, text = head ++ hidden ++ tail ∧
        result = head ++ marker (some "log") dropped ++ tail ∧ hidden.length = dropped := by
  intro text
  obtain ⟨result, hends, hle, -, hlong⟩ := truncate_tells_the_truth text (some "log") 44 (by decide)
  obtain ⟨dropped, hsettle, hroom⟩ := hlong (by decide)
  have hdropped : settle (actualDropped text 44 (some "log")) 60 (text.length - 44) = some 47 := by
    decide +kernel
  obtain rfl : 47 = dropped := Option.some.inj (hdropped.symm.trans (hsettle 60 (by decide)))
  exact ⟨result, 47, hends, hle, hroom (by decide)⟩

end OpenCollab.Tools
