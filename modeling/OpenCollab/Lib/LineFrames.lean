import Mathlib.Data.List.Basic

/-!
# OpenCollab.Lib.LineFrames

A buffer of lines, each ended by a newline, that may end in an unfinished one,
as an append-only log of one record a line has it.

- `splitlines_append`: what splitting makes of a line in front of any tail.
- `completeLines_frames`: the finished lines of such a buffer.
- `tailLines_frames`: a window on the end of the buffer shows its last lines,
  wherever the window begins.
-/

namespace OpenCollab.LineFrames

abbrev Bytes := List Nat

/-- Neither a newline nor a carriage return stands in the line. -/
def Unbroken (body : Bytes) : Prop := ∀ b ∈ body, b ≠ 10 ∧ b ≠ 13

theorem Unbroken.of_cons {b : Nat} {body : Bytes} (h : Unbroken (b :: body)) : Unbroken body :=
  fun c hc => h c (List.mem_cons_of_mem _ hc)

theorem Unbroken.of_front {front body : Bytes} (h : Unbroken body) (hfront : front <+: body) :
    Unbroken front :=
  fun b hb => h b (hfront.subset hb)

/-- The buffer of the finished lines. -/
def frames (bodies : List Bytes) : Bytes := bodies.flatMap (· ++ [10])

@[simp] theorem frames_nil : frames [] = [] := rfl

theorem frames_cons (body : Bytes) (bodies : List Bytes) :
    frames (body :: bodies) = body ++ 10 :: frames bodies := by
  simp [frames]

theorem frames_append (front back : List Bytes) :
    frames (front ++ back) = frames front ++ frames back := by
  simp [frames]

/-! ## splitting -/

/-- `data.splitlines()` of what stands behind a carriage return, or not. -/
def splitlines : (afterReturn : Bool) → Bytes → List Bytes
  | _, [] => []
  | afterReturn, b :: rest =>
      if afterReturn && b = 10 then splitlines false rest
      else if b = 10 || b = 13 then [] :: splitlines (b = 13) rest
      else match splitlines false rest with
        | [] => [[b]]
        | line :: lines => (b :: line) :: lines

theorem splitlines_append {body : Bytes} (h : Unbroken body) (rest : Bytes) :
    splitlines false (body ++ 10 :: rest) = body :: splitlines false rest := by
  induction body with
  | nil => simp [splitlines]
  | cons b body ih =>
      obtain ⟨hnewline, hreturn⟩ := h b List.mem_cons_self
      rw [List.cons_append, splitlines, ih h.of_cons]
      simp [hnewline, hreturn]

/-- The unfinished line, where there is one. -/
def unfinished (torn : Bytes) : List Bytes := if torn = [] then [] else [torn]

theorem splitlines_unbroken {body : Bytes} (h : Unbroken body) :
    splitlines false body = unfinished body := by
  induction body with
  | nil => rfl
  | cons b body ih =>
      obtain ⟨hnewline, hreturn⟩ := h b List.mem_cons_self
      rw [splitlines, ih h.of_cons]
      by_cases hbody : body = []
      · simp [unfinished, hbody, hnewline, hreturn]
      · simp [unfinished, hbody, hnewline, hreturn]

theorem splitlines_frames {bodies : List Bytes} {torn : Bytes} (h : ∀ body ∈ bodies, Unbroken body)
    (htorn : Unbroken torn) :
    splitlines false (frames bodies ++ torn) = bodies ++ unfinished torn := by
  induction bodies with
  | nil => exact splitlines_unbroken htorn
  | cons body bodies ih =>
      rw [frames_cons, List.append_assoc, List.cons_append,
        splitlines_append (h body List.mem_cons_self),
          ih fun b hb => h b (List.mem_cons_of_mem _ hb)]
      rfl

/-! ## the finished lines -/

/-- The lines that are ended by a newline, without it. -/
def completeLines : Bytes → List Bytes
  | [] => []
  | b :: rest =>
      if b = 10 then [] :: completeLines rest
      else match completeLines rest with
        | [] => []
        | line :: lines => (b :: line) :: lines

theorem completeLines_unbroken {body : Bytes} (h : Unbroken body) : completeLines body = [] := by
  induction body with
  | nil => rfl
  | cons b body ih => rw [completeLines, if_neg (h b List.mem_cons_self).1, ih h.of_cons]

theorem completeLines_append {body : Bytes} (h : Unbroken body) (rest : Bytes) :
    completeLines (body ++ 10 :: rest) = body :: completeLines rest := by
  induction body with
  | nil => rw [List.nil_append, completeLines, if_pos rfl]
  | cons b body ih =>
      rw [List.cons_append, completeLines, if_neg (h b List.mem_cons_self).1, ih h.of_cons]

/-- The finished lines are those the buffer was made of. -/
theorem completeLines_frames {bodies : List Bytes} {torn : Bytes}
    (h : ∀ body ∈ bodies, Unbroken body) (htorn : Unbroken torn) :
    completeLines (frames bodies ++ torn) = bodies := by
  induction bodies with
  | nil => exact completeLines_unbroken htorn
  | cons body bodies ih =>
      rw [frames_cons, List.append_assoc, List.cons_append,
        completeLines_append (h body List.mem_cons_self),
          ih fun b hb => h b (List.mem_cons_of_mem _ hb)]

/-! ## a window on the end of the buffer -/

/-- The lines from `start` on, without the one that begins before it. -/
def tailLines (start : Nat) (content : Bytes) : List Bytes :=
  let lines := splitlines false (content.drop start)
  if start ≠ 0 && content[start - 1]? ≠ some 10 then lines.drop 1 else lines

theorem tailLines_unbroken {start : Nat} {torn : Bytes} (htorn : Unbroken torn)
    (hstart : start ≠ 0) :
    tailLines start torn = [] := by
  have hbyte : torn[start - 1]? ≠ some 10 := by
    intro heq
    exact (htorn 10 (List.mem_of_getElem? heq)).1 rfl
  have hrest : Unbroken (torn.drop start) := fun b hb => htorn b (List.mem_of_mem_drop hb)
  rw [tailLines, splitlines_unbroken hrest]
  by_cases hnil : torn.drop start = []
  · simp [unfinished, hnil]
  · simp [unfinished, hnil, hstart, hbyte]

/-- Within the first line the window begins inside of it. -/
theorem tailLines_inside {start : Nat} {body rest : Bytes} (hbody : Unbroken body)
    (hstart : start ≠ 0)
    (hle : start ≤ body.length) : tailLines start (body ++ 10 :: rest) = splitlines false rest := by
  have hbyte : (body ++ 10 :: rest)[start - 1]? ≠ some 10 := by
    rw [List.getElem?_append_left (by omega)]
    intro heq
    exact (hbody 10 (List.mem_of_getElem? heq)).1 rfl
  have hrest : Unbroken (body.drop start) := fun b hb => hbody b (List.mem_of_mem_drop hb)
  rw [tailLines, List.drop_append_of_le_length hle, splitlines_append hrest]
  simp [hstart, hbyte]

/-- Behind the first line the window is one on the rest. -/
theorem tailLines_behind (start : Nat) (body rest : Bytes) :
    tailLines (body.length + 1 + start) (body ++ 10 :: rest) = tailLines start rest := by
  have hdrop : (body ++ 10 :: rest).drop (body.length + 1 + start) = rest.drop start := by
    rw [Nat.add_assoc, List.drop_append, Nat.add_comm 1 start, List.drop_eq_nil_of_le (by omega)]
    simp
  have hbyte : (body ++ 10 :: rest)[body.length + 1 + start - 1]? = (10 :: rest)[start]? := by
    rw [show body.length + 1 + start - 1 = body.length + start by omega,
      List.getElem?_append_right (by omega), Nat.add_sub_cancel_left]
  rw [tailLines, tailLines, hdrop, hbyte]
  cases start with
  | zero => simp
  | succ start => simp

/-- **The window shows the last lines**: all of them, or all but some of the first. -/
theorem tailLines_frames {bodies : List Bytes} {torn : Bytes} (h : ∀ body ∈ bodies, Unbroken body)
    (htorn : Unbroken torn) (start : Nat) :
    ∃ k, tailLines start (frames bodies ++ torn) = (bodies ++ unfinished torn).drop k := by
  obtain rfl | hstart := Nat.eq_zero_or_pos start
  · exact ⟨0, by rw [tailLines, List.drop_zero, splitlines_frames h htorn]; rfl⟩
  induction bodies generalizing start with
  | nil =>
      refine ⟨(unfinished torn).length, ?_⟩
      rw [List.nil_append, List.drop_length]
      exact tailLines_unbroken htorn (Nat.pos_iff_ne_zero.mp hstart)
  | cons body bodies ih =>
      have hrest : ∀ body ∈ bodies, Unbroken body := fun b hb => h b (List.mem_cons_of_mem _ hb)
      rw [frames_cons, List.append_assoc, List.cons_append]
      by_cases hinside : start ≤ body.length
      · refine ⟨1, ?_⟩
        rw [tailLines_inside (h body List.mem_cons_self) (Nat.pos_iff_ne_zero.mp hstart) hinside,
          splitlines_frames hrest htorn]
        rfl
      · obtain ⟨past, rfl⟩ : ∃ past, start = body.length + 1 + past :=
          ⟨start - (body.length + 1), by omega⟩
        rw [tailLines_behind]
        obtain rfl | hpast := Nat.eq_zero_or_pos past
        · refine ⟨1, ?_⟩
          rw [tailLines, List.drop_zero, splitlines_frames hrest htorn]
          rfl
        · obtain ⟨k, hk⟩ := ih hrest past hpast
          exact ⟨k + 1, hk⟩

end OpenCollab.LineFrames
