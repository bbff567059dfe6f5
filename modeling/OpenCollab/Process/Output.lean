import OpenCollab.Patch.Paths

/-!
# OpenCollab.Process.Output

`adapters/_env_process.py`: what is kept of a command's output.

The reader keeps the head of the stream and, of what follows, the last bytes; it sees
the stream in the chunks that happen to arrive.

* `lastBytes_append` — the end of a text is found from the end of its first part;
* `read_of` — one chunk keeps the description `Capture.of` of what has arrived;
* `readBoundedOutput_eq` — the result in terms of the stream, whatever the chunks.
-/

namespace OpenCollab.Process

open PatchPaths (decodeFirst within)

/-- A byte string. -/
abbrev Bytes := List Nat

/-! ## the reader -/

/-- A stream as successive `read` calls hand it out: at least one byte a call, until the
end of the stream. -/
structure StreamReader where
  reads : List Bytes
  reads_ne_nil : ∀ chunk ∈ reads, chunk ≠ []

/-- The bytes of the stream. -/
def StreamReader.bytes (stream : StreamReader) : Bytes := stream.reads.flatten

/-- The last `n` bytes. -/
def lastBytes (n : Nat) (bytes : Bytes) : Bytes := bytes.drop (bytes.length - n)

/-- The variables of the reading loop. -/
structure Capture where
  head : Bytes := []
  tail : Bytes := []
  total : Nat := 0
deriving DecidableEq, Repr

/-- One round of the reading loop. -/
def Capture.read (headLimit tailLimit : Nat) (capture : Capture) (chunk : Bytes) : Capture :=
  let available := headLimit - capture.head.length
  let remainder := chunk.drop available
  let tail :=
    if tailLimit ≠ 0 ∧ remainder ≠ [] then
      -- `del tail[:-tail_limit]`
      if tailLimit < (capture.tail ++ remainder).length then
        lastBytes tailLimit (capture.tail ++ remainder)
      else capture.tail ++ remainder
    else capture.tail
  { head := capture.head ++ chunk.take available, tail, total := capture.total + chunk.length }

/-- The reading loop: it ends at the first empty chunk. -/
def readLoop (headLimit tailLimit : Nat) (capture : Capture) : List Bytes → Capture
  | [] => capture
  | chunk :: reads =>
      if chunk = [] then capture
      else readLoop headLimit tailLimit (capture.read headLimit tailLimit chunk) reads

/-- `read_bounded_output`. -/
def readBoundedOutput (stream : Option StreamReader) (limit : Nat) : Bytes × Nat :=
  match stream with
  | none => ([], 0)
  | some stream =>
      let headLimit := (limit + 1) / 2
      let tailLimit := limit - headLimit
      let capture := readLoop headLimit tailLimit {} stream.reads
      let retained := capture.head ++ capture.tail
      (retained, capture.total - retained.length)

/-! ## the result -/

/-- How many bytes behind the first one belong to the same ill-formed sequence. -/
def illFormed : Bytes → Nat
  | a :: b :: rest =>
      let low := if a = 0xE0 then 0xA0 else if a = 0xF0 then 0x90 else 0x80
      let high := if a = 0xED then 0x9F else if a = 0xF4 then 0x8F else 0xBF
      if !within low high b then 0
      else if within 0xE0 0xEF a then 1
      else if within 0xF0 0xF4 a then
        match rest with
        | c :: _ => if within 0x80 0xBF c then 2 else 1
        | [] => 1
      else 0
  | _ => 0

/-- `bytes.decode("utf-8", errors="replace")`; `skip` bytes belong to the character
before. -/
def decodeReplace : (skip : Nat) → Bytes → List Nat
  | _, [] => []
  | skip + 1, _ :: bytes => decodeReplace skip bytes
  | 0, b :: bytes =>
      match decodeFirst (b :: bytes) with
      | some (c, following) => c :: decodeReplace following bytes
      | none => 0xFFFD :: decodeReplace (illFormed (b :: bytes)) bytes

/-- `ProcessResult`. -/
structure ProcessResult where
  returncode : Int
  stdout : Bytes
  stderr : Bytes
  stdoutDroppedBytes : Nat := 0
  stderrDroppedBytes : Nat := 0
deriving DecidableEq, Repr

/-- `ExecResult`. -/
structure ExecResult where
  returncode : Int
  stdout : List Nat
  stderr : List Nat
  stdoutTruncated : Bool := false
  stderrTruncated : Bool := false
  stdoutDroppedBytes : Nat := 0
  stderrDroppedBytes : Nat := 0
  timedOut : Bool := false
  stdoutBytes : Option Bytes := none
deriving DecidableEq, Repr

/-- `ProcessResult.to_exec_result`. -/
def ProcessResult.toExecResult (result : ProcessResult) : ExecResult where
  returncode := result.returncode
  stdout := decodeReplace 0 result.stdout
  stderr := decodeReplace 0 result.stderr
  stdoutTruncated := 0 < result.stdoutDroppedBytes
  stderrTruncated := 0 < result.stderrDroppedBytes
  stdoutDroppedBytes := result.stdoutDroppedBytes
  stderrDroppedBytes := result.stderrDroppedBytes
  stdoutBytes := some result.stdout

/-- What `run_process` returns of a command that has exited, from its two readers. -/
def runProcess (returncode : Option Int) (stdout stderr : Option StreamReader)
    (outputLimit : Nat) : ProcessResult :=
  let (stdout, stdoutDropped) := readBoundedOutput stdout outputLimit
  let (stderr, stderrDropped) := readBoundedOutput stderr outputLimit
  { returncode := returncode.getD 0, stdout, stderr, stdoutDroppedBytes := stdoutDropped,
    stderrDroppedBytes := stderrDropped }

example : (ProcessResult.toExecResult ⟨0, [97, 0xE2, 0x82, 98, 0xFF], [], 0, 3⟩).stdout =
    [97, 0xFFFD, 98, 0xFFFD] := by decide

/-! ## the end of a byte string -/

theorem length_lastBytes (n : Nat) (bytes : Bytes) :
    (lastBytes n bytes).length = min n bytes.length := by
  rw [lastBytes, List.length_drop]
  omega

/-- A byte string that is no longer is its own end. -/
theorem lastBytes_of_length_le {n : Nat} {bytes : Bytes} (h : bytes.length ≤ n) :
    lastBytes n bytes = bytes := by
  rw [lastBytes, Nat.sub_eq_zero_of_le h, List.drop_zero]

/-- **The end of a text is found from the end of its first part.** -/
theorem lastBytes_append (n : Nat) (front rest : Bytes) :
    lastBytes n (lastBytes n front ++ rest) = lastBytes n (front ++ rest) := by
  have hlen := length_lastBytes n front
  cases Nat.lt_or_ge n front.length with
  | inr hshort => rw [lastBytes_of_length_le hshort]
  | inl hlong =>
      simp only [lastBytes] at hlen ⊢
      rw [List.length_append, hlen, List.length_append, List.drop_append, List.drop_append,
        List.drop_drop, hlen]
      congr 2 <;> omega

/-! ## the loop -/

/-- What the loop holds once `bytes` have arrived. -/
def Capture.of (headLimit tailLimit : Nat) (bytes : Bytes) : Capture where
  head := bytes.take headLimit
  tail := lastBytes tailLimit (bytes.drop headLimit)
  total := bytes.length

variable (headLimit tailLimit : Nat)

/-- **One round adds its chunk to what has arrived.** -/
theorem read_of (bytes chunk : Bytes) :
    (Capture.of headLimit tailLimit bytes).read headLimit tailLimit chunk =
      Capture.of headLimit tailLimit (bytes ++ chunk) := by
  have havailable : headLimit - (bytes.take headLimit).length = headLimit - bytes.length := by
    rw [List.length_take]
    omega
  have htail : lastBytes tailLimit (lastBytes tailLimit (bytes.drop headLimit) ++
      chunk.drop (headLimit - bytes.length)) =
        lastBytes tailLimit ((bytes ++ chunk).drop headLimit) := by
    rw [lastBytes_append, ← List.drop_append]
  simp only [Capture.read, Capture.of, havailable]
  rw [← List.take_append, ← List.length_append, ← htail, Capture.mk.injEq]
  refine ⟨rfl, ?_, rfl⟩
  split
  · split
    · rfl
    · rename_i hshort
      exact (lastBytes_of_length_le (Nat.not_lt.1 hshort)).symm
  · rename_i hskip
    cases Nat.eq_zero_or_pos tailLimit with
    | inl hzero =>
        rw [hzero]
        simp only [lastBytes, Nat.sub_zero, List.drop_length]
    | inr hpos =>
        have hnil : chunk.drop (headLimit - bytes.length) = [] := by
          by_contra hne
          exact hskip ⟨Nat.pos_iff_ne_zero.1 hpos, hne⟩
        have hlen := length_lastBytes tailLimit (bytes.drop headLimit)
        rw [hnil, List.append_nil]
        exact (lastBytes_of_length_le (by omega)).symm

/-- The loop reads the stream to its end. -/
theorem readLoop_of (bytes : Bytes) {reads : List Bytes} (h : ∀ chunk ∈ reads, chunk ≠ []) :
    readLoop headLimit tailLimit (Capture.of headLimit tailLimit bytes) reads =
      Capture.of headLimit tailLimit (bytes ++ reads.flatten) := by
  induction reads generalizing bytes with
  | nil => rw [readLoop, List.flatten_nil, List.append_nil]
  | cons chunk reads ih =>
      rw [readLoop, if_neg (h chunk List.mem_cons_self), read_of,
        ih (bytes ++ chunk) fun c hc => h c (List.mem_cons_of_mem _ hc), List.flatten_cons,
        List.append_assoc]

/-- **The result in terms of the stream**: the head, the end of the rest, and how much
lies between. -/
theorem readBoundedOutput_eq (stream : StreamReader) (limit : Nat) :
    readBoundedOutput (some stream) limit =
      if stream.bytes.length ≤ limit then (stream.bytes, 0)
      else (stream.bytes.take ((limit + 1) / 2) ++
          stream.bytes.drop (stream.bytes.length - limit / 2), stream.bytes.length - limit) := by
  have hempty : ({} : Capture) = Capture.of ((limit + 1) / 2) (limit - (limit + 1) / 2) [] := by
    simp [Capture.of, lastBytes]
  have hloop := readLoop_of ((limit + 1) / 2) (limit - (limit + 1) / 2) [] stream.reads_ne_nil
  have htail : limit - (limit + 1) / 2 = limit / 2 := by omega
  rw [List.nil_append] at hloop
  simp only [readBoundedOutput]
  rw [hempty, hloop, ← StreamReader.bytes, htail]
  simp only [Capture.of]
  split
  · rename_i hshort
    rw [lastBytes_of_length_le (by rw [List.length_drop]; omega), List.take_append_drop,
      Nat.sub_self]
  · rename_i hlong
    have hlast : lastBytes (limit / 2) (stream.bytes.drop ((limit + 1) / 2)) =
        stream.bytes.drop (stream.bytes.length - limit / 2) := by
      rw [lastBytes, List.drop_drop, List.length_drop]
      congr 1
      omega
    rw [hlast, Prod.mk.injEq]
    refine ⟨rfl, ?_⟩
    rw [List.length_append, List.length_take, List.length_drop]
    omega

/-- **Bounded capture is a head and a tail of the stream**, and what `run_process`
reports does not depend on the chunks. -/
theorem bounded_capture (returncode : Option Int) (limit : Nat) (stdout stderr : StreamReader) :
    readBoundedOutput (some stdout) limit =
        (if stdout.bytes.length ≤ limit then (stdout.bytes, 0)
        else (stdout.bytes.take ((limit + 1) / 2) ++
          stdout.bytes.drop (stdout.bytes.length - limit / 2), stdout.bytes.length - limit)) ∧
      ∀ stdout' stderr' : StreamReader, stdout'.bytes = stdout.bytes →
        stderr'.bytes = stderr.bytes →
        runProcess returncode (some stdout') (some stderr') limit =
            runProcess returncode (some stdout) (some stderr) limit ∧
          (runProcess returncode (some stdout') (some stderr') limit).toExecResult =
            (runProcess returncode (some stdout) (some stderr) limit).toExecResult := by
  refine ⟨readBoundedOutput_eq stdout limit, ?_⟩
  intro stdout' stderr' hstdout hstderr
  have hresult : runProcess returncode (some stdout') (some stderr') limit =
      runProcess returncode (some stdout) (some stderr) limit := by
    simp only [runProcess]
    rw [readBoundedOutput_eq, readBoundedOutput_eq, hstdout, hstderr, ← readBoundedOutput_eq,
      ← readBoundedOutput_eq]
  exact ⟨hresult, congrArg _ hresult⟩

end OpenCollab.Process
