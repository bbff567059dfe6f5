import OpenCollab.Session.Storage

/-!
# OpenCollab.Session.Journal

The autosave of a session: deltas that are appended to a journal, checkpoints
that replace the base snapshot and empty the journal, and the cursor that
decides from where on the next delta has to carry messages.

Every save freezes the history under the lock and is written later by a thread.
The steps of those threads come in any order here, more than the checkpoint
lock lets through, and each write may fail.

* `replay_newest` — a replay ends at the newest sequence;
* `checkpointSnapshot_cases` — a checkpoint leaves the files, or they hold its
  messages and nothing of the journal.
-/

namespace OpenCollab

/-! ## the files -/

namespace SavedFiles

/-- What `load_snapshot` reads of the files: the newest sequence, and the messages. -/
def replay (files : SavedFiles) : Except StoreError (Nat × List Message) :=
  files.journal.foldlM replayRecord (files.base.getD (0, []))

/-- Which of the two writes of a checkpoint fails. -/
inductive Fault where
  | none
  | base
  | journal
deriving DecidableEq, Repr

/-- The state that the files hold is that of the checkpoint. -/
def holds (files : SavedFiles) (messages : List Message) : Bool :=
  match files.loadSnapshot "" with
  | .ok persisted => persisted = messages
  | .error _ => false

/-- `checkpoint_snapshot`: the files after it, and whether it returned. -/
def checkpointSnapshot (files : SavedFiles) (messages : List Message) (sequence : Nat)
    (fault : Fault) : SavedFiles × Bool :=
  let sameSequence := files.journal.filter (·.sequence = sequence)
  if sequence < files.newestPersistedSequence then (files, false)
  else if 1 < sameSequence.length then (files, false)
  else if !sameSequence.isEmpty && !files.holds messages then (files, false)
  else match fault with
  | .base => (files, false)
  | .journal => ({ files with base := some (sequence, messages) }, false)
  | .none => ({ base := some (sequence, messages), journal := [] }, true)

end SavedFiles

/-! ## the saves of a session -/

namespace Journal

/-- Where a save stands: its history is frozen, its record is in the journal, the cursor
has passed it, its checkpoint is written, or it is over. -/
inductive Stage where
  | frozen
  | appended
  | advanced
  | published
  | done
deriving DecidableEq, Repr

/-- A save: the delta of `_prepare_journal_auto_save`, or the whole of `save` when
`manual`.  `checkpoint` are the messages it publishes as a base snapshot. -/
structure Save where
  sequence : Nat
  replaceFrom : Nat := 0
  messages : List Message := []
  messageCount : Nat
  revision : Nat
  checkpoint : Option (List Message) := none
  manual : Bool := false
  stage : Stage := .frozen

/-- A session with its files.  `turn` is the length of the history that an append of a user
turn goes back to, while it can fail; `behind` when one went back and nothing was appended
since.  `frozen` and `revisions` are what the saves of each sequence have frozen. -/
structure State where
  messages : List Message := []
  files : SavedFiles := {}
  sequence : Nat := 0
  reserved : Nat := 0
  messageCount : Nat := 0
  rewriteFrom : Option Nat := some 0
  rewriteRevision : Nat := 0
  nextCheckpoint : Nat := 1
  saves : List Save := []
  turn : Option Nat := none
  behind : Bool := false
  frozen : Nat → List Message := fun _ => []
  revisions : Nat → Nat := fun _ => 0

/-- How `_append_journal_record` ends: it returns, it raises and has taken the record back,
or it raises and the record stays, as the truncation failed too. -/
inductive Outcome where
  | written
  | truncated
  | kept
deriving DecidableEq, Repr

/-- What happens to the history, the saves that are begun, and the steps of the saves. -/
inductive Action where
  | append (message : Message)
  | fold (message : Message)
  | rewrite (messages : List Message)
  | beginTurn (message : Option Message)
  | commitTurn
  | rollbackTurn
  | prepare
  | save
  | write (i : Nat) (outcome : Outcome)
  | advance (i : Nat)
  | compact (i : Nat) (fault : SavedFiles.Fault)
  | publish (i : Nat) (fault : SavedFiles.Fault)
  | settle (i : Nat)
  | leave (i : Nat)

/-- `1 << sequence.bit_length()`. -/
def nextPower (sequence : Nat) : Nat := if sequence = 0 then 1 else 2 ^ (sequence.log2 + 1)

namespace State

/-- A save goes on to a stage. -/
def setStage (s : State) (i : Nat) (save : Save) (stage : Stage) : State :=
  { s with saves := s.saves.set i { save with stage } }

/-- A save is begun with the next sequence. -/
def reserve (s : State) (save : Save) : State :=
  { s with
    reserved := max s.reserved s.sequence + 1
    saves := s.saves ++ [{ save with
      sequence := max s.reserved s.sequence + 1, revision := s.rewriteRevision }]
    frozen := Function.update s.frozen (max s.reserved s.sequence + 1) s.messages
    revisions := Function.update s.revisions (max s.reserved s.sequence + 1) s.rewriteRevision }

/-- From where on a delta carries the messages. -/
def replaceFrom (s : State) : Nat :=
  let overlap := if s.sequence < s.reserved then 0 else min s.messageCount s.messages.length
  let overlap := if overlap ≠ 0 then overlap - 1 else overlap
  match s.rewriteFrom with
  | some start => min overlap start
  | none => overlap

/-- `_prepare_journal_auto_save`. -/
def prepareJournalAutoSave (s : State) : State :=
  s.reserve {
    sequence := 0, revision := 0
    replaceFrom := s.replaceFrom
    messages := s.messages.drop s.replaceFrom
    messageCount := s.messages.length
    checkpoint :=
      if s.nextCheckpoint ≤ max s.reserved s.sequence + 1 then some s.messages else none }

/-- The first half of `save`. -/
def save (s : State) : State :=
  s.reserve {
    sequence := 0, revision := 0
    messageCount := s.messages.length
    checkpoint := some s.messages
    manual := true }

/-- The cursor moves to a save that is persisted. -/
def moveCursor (s : State) (save : Save) : State :=
  { s with
    sequence := save.sequence
    messageCount := save.messageCount
    rewriteFrom := if s.rewriteRevision = save.revision then none else s.rewriteFrom }

/-- `append_snapshot_delta` of a save. -/
def write (s : State) (i : Nat) (save : Save) (outcome : Outcome) : State :=
  match s.files.appendSnapshotDelta save.sequence save.replaceFrom save.messages, outcome with
  | .ok files, .written => { s with files }.setStage i save .appended
  | .ok files, .kept => { s with files }.setStage i save .done
  | _, _ => s.setStage i save .done

/-- What follows an append: the cursor moves unless a newer save has moved it. -/
def advance (s : State) (i : Nat) (save : Save) : State :=
  if save.sequence ≤ s.sequence then s.setStage i save .done
  else (s.moveCursor save).setStage i save (if save.checkpoint.isSome then .advanced else .done)

/-- `checkpoint_snapshot` of a save, which goes on to a stage if it returned. -/
def checkpoint (s : State) (i : Nat) (save : Save) (fault : SavedFiles.Fault)
    (returned : Stage) : State :=
  match save.checkpoint with
  | none => s
  | some messages =>
      let (files, ok) := s.files.checkpointSnapshot messages save.sequence fault
      { s with
        files
        nextCheckpoint := if ok && !save.manual then nextPower save.sequence
          else s.nextCheckpoint }.setStage i save (if ok then returned else .done)

/-- The second half of `save`. -/
def settle (s : State) (i : Nat) (save : Save) : State :=
  { s.moveCursor save with nextCheckpoint := nextPower save.sequence }.setStage i save .done

/-- What an action does; an action that cannot happen does nothing. -/
def act (s : State) : Action → State
  | .append message => if s.turn = none then
      { s with messages := s.messages ++ [message], behind := false } else s
  | .fold message => if s.turn = none ∧ s.behind = false ∧ s.messages ≠ [] then
      { s with messages := s.messages.dropLast ++ [message] } else s
  | .rewrite messages => if s.turn = none then
      { s with
        messages, behind := false, rewriteFrom := some 0
        rewriteRevision := s.rewriteRevision + 1 } else s
  | .beginTurn message => if s.turn = none then
      { s with
        messages := s.messages ++ message.toList, turn := some s.messages.length
        behind := s.behind && message.isNone } else s
  | .commitTurn => { s with turn := none }
  | .rollbackTurn =>
      match s.turn with
      | some count => { s with messages := s.messages.take count, turn := none, behind := true }
      | none => s
  | .prepare => s.prepareJournalAutoSave
  | .save => s.save
  | .write i outcome =>
      match s.saves[i]? with
      | some save => if save.stage = .frozen ∧ save.manual = false then s.write i save outcome
          else s
      | none => s
  | .advance i =>
      match s.saves[i]? with
      | some save => if save.stage = .appended then s.advance i save else s
      | none => s
  | .compact i fault =>
      match s.saves[i]? with
      | some save => if save.stage = .advanced then s.checkpoint i save fault .done else s
      | none => s
  | .publish i fault =>
      match s.saves[i]? with
      | some save => if save.stage = .frozen ∧ save.manual = true then
            s.checkpoint i save fault .published
          else s
      | none => s
  | .settle i =>
      match s.saves[i]? with
      | some save => if save.stage = .published then s.settle i save else s
      | none => s
  | .leave i =>
      match s.saves[i]? with
      | some save => s.setStage i save .done
      | none => s

end State

/-! ## replaying -/

theorem replayRecord_skip {state : Nat × List Message} {record : JournalRecord}
    (h : record.sequence ≤ state.1) : replayRecord state record = .ok state := by
  rw [replayRecord, if_pos h]
  rfl

theorem replayRecord_next {state : Nat × List Message} {record : JournalRecord}
    (h : state.1 < record.sequence) (hk : record.replaceFrom ≤ state.2.length)
    (hvalid : validateMessages record.messages = .ok ())
    (hcount : record.replaceFrom + record.messages.length = record.messageCount) :
    replayRecord state record =
      .ok (record.sequence, state.2.take record.replaceFrom ++ record.messages) := by
  have hlength : (state.2.take record.replaceFrom ++ record.messages).length =
      record.messageCount := by
    rw [List.length_append, List.length_take, Nat.min_eq_left hk, hcount]
  rw [replayRecord, if_neg (by omega), if_neg (by omega), hvalid]
  simp only [bind, Except.bind, hlength, ne_eq, not_true_eq_false, if_false, pure, Except.pure]

/-- A replayed record is skipped, or it sets the sequence. -/
theorem replayRecord_sequence {state state' : Nat × List Message} {record : JournalRecord}
    (h : replayRecord state record = .ok state') : state'.1 = max state.1 record.sequence := by
  unfold replayRecord at h
  simp only [bind, Except.bind, pure, Except.pure, throw, throwThe, MonadExceptOf.throw] at h
  split at h
  · cases h
    omega
  · split at h
    · contradiction
    · split at h
      · contradiction
      · split at h
        · contradiction
        · cases h
          dsimp only
          omega

theorem foldlM_newest {records : List JournalRecord} {state state' : Nat × List Message}
    (h : records.foldlM replayRecord state = .ok state') :
    records.foldl (fun newest record => max newest record.sequence) state.1 = state'.1 := by
  induction records generalizing state with
  | nil =>
      cases h
      rfl
  | cons record records ih =>
      rw [List.foldlM_cons] at h
      cases hnext : replayRecord state record with
      | error e =>
          rw [hnext] at h
          contradiction
      | ok next =>
          rw [hnext] at h
          rw [List.foldl_cons, ← replayRecord_sequence hnext]
          exact ih h

/-- **A replay ends at the newest sequence.** -/
theorem replay_newest {files : SavedFiles} {state : Nat × List Message}
    (h : files.replay = .ok state) : files.newestPersistedSequence = state.1 := by
  have hnewest := foldlM_newest h
  rw [SavedFiles.newestPersistedSequence, ← hnewest]
  cases files.base <;> rfl

/-- The records of a journal with nothing newer than the state are skipped. -/
theorem foldlM_skip {records : List JournalRecord} {state : Nat × List Message}
    (h : ∀ record ∈ records, record.sequence ≤ state.1) :
    records.foldlM replayRecord state = .ok state := by
  induction records with
  | nil => rfl
  | cons record records ih =>
      rw [List.foldlM_cons, replayRecord_skip (h record List.mem_cons_self)]
      exact ih fun r hr => h r (List.mem_cons_of_mem _ hr)

theorem le_foldl_max (records : List JournalRecord) (start : Nat) :
    start ≤ records.foldl (fun newest record => max newest record.sequence) start ∧
      ∀ record ∈ records,
        record.sequence ≤
          records.foldl (fun newest record => max newest record.sequence) start := by
  induction records generalizing start with
  | nil => exact ⟨Nat.le_refl _, fun _ h => by contradiction⟩
  | cons first records ih =>
      obtain ⟨hstart, hrest⟩ := ih (max start first.sequence)
      rw [List.foldl_cons]
      refine ⟨by omega, fun record hrecord => ?_⟩
      obtain rfl | hmem := List.mem_cons.mp hrecord
      · omega
      · exact hrest record hmem

theorem sequence_le_newest {files : SavedFiles} {record : JournalRecord}
    (h : record ∈ files.journal) : record.sequence ≤ files.newestPersistedSequence :=
  (le_foldl_max files.journal _).2 record h

/-- Behind a checkpoint the files hold its messages, whether the journal was emptied or not. -/
theorem replay_checkpoint {files : SavedFiles} {messages : List Message} {sequence : Nat}
    (h : files.newestPersistedSequence ≤ sequence) (journal : List JournalRecord)
    (hjournal : journal = files.journal ∨ journal = []) :
    ({ base := some (sequence, messages), journal } : SavedFiles).replay =
      .ok (sequence, messages) := by
  obtain rfl | rfl := hjournal
  · refine foldlM_skip fun record hrecord => ?_
    have hnewest := @sequence_le_newest files record hrecord
    exact Nat.le_trans hnewest h
  · rfl

/-- What a checkpoint leaves: the files as they were, or its messages. -/
theorem checkpointSnapshot_cases (files : SavedFiles) (messages : List Message)
    (sequence : Nat) (fault : SavedFiles.Fault) :
    files.checkpointSnapshot messages sequence fault = (files, false) ∨
      files.newestPersistedSequence ≤ sequence ∧
        (files.checkpointSnapshot messages sequence fault).1.replay = .ok (sequence, messages) := by
  unfold SavedFiles.checkpointSnapshot
  dsimp only
  split
  · exact .inl rfl
  · rename_i hnewest
    have hle : files.newestPersistedSequence ≤ sequence := Nat.le_of_not_lt hnewest
    split
    · exact .inl rfl
    · split
      · exact .inl rfl
      · cases fault with
        | base => exact .inl rfl
        | journal => exact .inr ⟨hle, @replay_checkpoint files _ _ hle _ (.inl rfl)⟩
        | none => exact .inr ⟨hle, @replay_checkpoint files _ _ hle _ (.inr rfl)⟩

end Journal

end OpenCollab
