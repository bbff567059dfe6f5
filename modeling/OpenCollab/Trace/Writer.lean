import OpenCollab.Lib.LineFrames
import OpenCollab.Shaping.ToolBudget

/-!
# OpenCollab.Trace.Writer

The records of a trace and the append that puts one of them into the file.

- `Line.body`, `Line.Dumped`: a numbered record, and what `json` is relied on for.
- `writeLockedText_front`, `writeLockedText_done`, `writeLockedText_failed`: what
  an append leaves in the file.
-/

namespace OpenCollab.Trace

open LineFrames

/-! ## the records -/

def asciiBytes (text : String) : Bytes := text.toList.map Char.toNat

/-- A record with its number: `serialized` is what `json.dumps` made of it. -/
structure Line where
  step : Nat
  serialized : Bytes
deriving DecidableEq, Repr

namespace Line

/-- The number stands behind the opening brace. -/
def body (l : Line) : Bytes :=
  l.serialized.take 1 ++ asciiBytes "\"step\":" ++ asciiBytes (toString l.step) ++ asciiBytes "," ++
    l.serialized.drop 1

def text (l : Line) : Bytes := l.body ++ [10]

/-- What the program relies on of `json`, for one record: `dumps` escapes every line
break, `loads` reads the number back (or finds the record too deep), and a record that
is cut short is no JSON text. -/
structure Dumped (loads : Bytes → JsonLoads) (l : Line) : Prop where
  unbroken : Unbroken l.serialized
  reads : loads l.body = .recursionError ∨
    ∃ record, loads l.body = .value record ∧ record.get "step" = .int l.step
  torn : ∀ front, front ≠ [] → front <+: l.body → front ≠ l.body →
    loads front = .valueError ∨ loads front = .recursionError

end Line

theorem unbroken_digits (n : Nat) : Unbroken (asciiBytes (toString n)) := by
  intro b hb
  obtain ⟨c, hc, rfl⟩ := List.mem_map.mp hb
  have hdigit : c.isDigit := by
    refine @Nat.isDigit_of_mem_toDigits 10 n c (by omega) (Nat.le_refl 10) ?_
    simpa [Nat.repr] using hc
  have hlow : 48 ≤ c.toNat := by
    simp only [Char.isDigit, Bool.and_eq_true, decide_eq_true_eq] at hdigit
    exact hdigit.1
  omega

theorem Line.unbroken_body {l : Line} (h : Unbroken l.serialized) : Unbroken l.body := by
  intro b hb
  simp only [Line.body, List.mem_append] at hb
  obtain (((hfirst | hkey) | hdigits) | hcomma) | hrest := hb
  · exact h b (List.mem_of_mem_take hfirst)
  · revert b
    decide
  · exact unbroken_digits l.step b hdigits
  · revert b
    decide
  · exact h b (List.mem_of_mem_drop hrest)

/-! ## the append -/

/-- What the system does while a text is appended: `writes` are the answers of `os.write`
(a count, or an error), of which the writer may not live to see the last. -/
structure Append where
  locks : Bool := true
  encodes : Bool := true
  writes : List (Option Nat)
  unlocks : Bool := true

/-- The loop of `write_locked_text`: what it appends, and whether it comes to its end. -/
def writeAll : List (Option Nat) → Bytes → Bytes × Bool
  | _, [] => ([], true)
  | [], _ :: _ => ([], false)
  | none :: _, _ :: _ => ([], false)
  | some 0 :: _, _ :: _ => ([], false)
  | some (n + 1) :: answers, b :: payload =>
      ((b :: payload).take (n + 1) ++ (writeAll answers (payload.drop n)).1,
        (writeAll answers (payload.drop n)).2)

/-- What is appended to the file, and whether the call returns normally. -/
def writeLockedText (a : Append) (text : Bytes) : Bytes × Bool :=
  if a.locks && a.encodes then ((writeAll a.writes text).1, (writeAll a.writes text).2 && a.unlocks)
  else ([], false)

/-- The system takes the whole text. -/
def Append.takes (a : Append) (text : Bytes) : Bool :=
  a.locks && a.encodes && (writeAll a.writes text).2

theorem writeAll_spec (answers : List (Option Nat)) (text : Bytes) :
    (writeAll answers text).1 <+: text ∧
      ((writeAll answers text).2 = true ↔ (writeAll answers text).1 = text) := by
  fun_induction writeAll answers text with
  | case1 answers => simp
  | case2 b payload => simp
  | case3 rest b payload => simp
  | case4 rest b payload => simp
  | case5 n answers b payload ih =>
      obtain ⟨⟨rest, hrest⟩, hdone⟩ := ih
      have htake : (b :: payload).take (n + 1) = b :: payload.take n := rfl
      rw [htake]
      constructor
      · refine ⟨rest, ?_⟩
        rw [List.cons_append, List.cons_append, List.append_assoc, hrest, List.take_append_drop]
      · rw [hdone, List.cons_append, List.cons.injEq]
        constructor
        · intro heq
          rw [heq]
          exact ⟨rfl, List.take_append_drop n payload⟩
        · intro heq
          exact List.append_cancel_left (heq.2.trans (List.take_append_drop n payload).symm)

/-- A failing append leaves a front of the text. -/
theorem writeLockedText_front (a : Append) (text : Bytes) :
    (writeLockedText a text).1 <+: text := by
  rw [writeLockedText]
  split
  · exact (writeAll_spec a.writes text).1
  · exact List.nil_prefix

theorem writeLockedText_done {a : Append} {text : Bytes} (h : (writeLockedText a text).2 = true) :
    (writeLockedText a text).1 = text := by
  rw [writeLockedText] at h ⊢
  split at h
  · rename_i hstart
    rw [if_pos hstart]
    rw [Bool.and_eq_true] at h
    exact (writeAll_spec a.writes text).2.mp h.1
  · contradiction

/-- Unless the lock cannot be given back, an append that fails leaves a part only. -/
theorem writeLockedText_failed {a : Append} {text : Bytes} (htext : text ≠ [])
    (hunlock : a.unlocks = true ∨ a.takes text = false) (h : (writeLockedText a text).2 = false) :
    (writeLockedText a text).1 ≠ text := by
  rw [writeLockedText] at h ⊢
  split at h
  · rename_i hstart
    rw [if_pos hstart]
    rw [Append.takes, hstart, Bool.true_and] at hunlock
    intro heq
    have hall := (writeAll_spec a.writes text).2.mpr heq
    rw [hall] at h hunlock
    simp_all
  · rename_i hstart
    rw [if_neg hstart]
    exact htext.symm

end OpenCollab.Trace
