import OpenCollab.Session.Journal

/-!
# OpenCollab.Session.JournalRuns

What the files of a session hold in the course of a run: `Inv` is kept by every
step of the history and of the saves, and `Later` says what no step takes back.

* `Inv.replaceFrom` — a delta fits behind the last save;
* `Inv.append` — a record that is appended late is skipped;
* `unsaved_run` — without a persisted save there are no files;
* `journal_replays` — the files hold what one save has frozen, and are loaded as
  it if the store accepts its messages;
* `rollback_replays` — a user turn that is taken back leaves no trace in them.
-/

namespace OpenCollab.Journal

variable {s s' : State} {save : Save} {i : Nat}

/-! ## the invariant -/

/-- What a save knows: what it froze, and where its delta belongs. -/
structure Good (s : State) (save : Save) : Prop where
  positive : 0 < save.sequence
  reserved : save.sequence ≤ s.reserved
  revision : save.revision = s.revisions save.sequence
  count : save.messageCount = (s.frozen save.sequence).length
  checkpoint : ∀ messages, save.checkpoint = some messages → messages = s.frozen save.sequence
  delta : save.manual = false →
    save.messages = (s.frozen save.sequence).drop save.replaceFrom
  place : save.manual = false → save.replaceFrom = 0 ∨
    save.sequence ≤ s.files.newestPersistedSequence + 1 ∧
      save.replaceFrom ≤ (s.frozen (save.sequence - 1)).length ∧
      (s.frozen (save.sequence - 1)).take save.replaceFrom =
        (s.frozen save.sequence).take save.replaceFrom
  persisted : save.stage ≠ .frozen → save.stage ≠ .done →
    save.sequence ≤ s.files.newestPersistedSequence

/-- The history that a user turn goes back to. -/
def State.kept (s : State) : List Message :=
  match s.turn with
  | some count => s.messages.take count
  | none => s.messages

/-- What holds in every state. -/
structure Inv (s : State) : Prop where
  cursor : s.sequence ≤ s.files.newestPersistedSequence
  newest : s.files.newestPersistedSequence ≤ s.reserved
  replays : s.files.replay = .ok (s.files.newestPersistedSequence,
    s.frozen s.files.newestPersistedSequence)
  count : s.messageCount ≤ (s.frozen s.sequence).length
  rewrite : s.rewriteFrom = some 0 ∨
    s.rewriteFrom = none ∧ s.revisions s.reserved = s.rewriteRevision
  rising : ∀ k, k ≤ s.reserved → s.revisions k ≤ s.revisions s.reserved
  bounded : s.revisions s.reserved ≤ s.rewriteRevision
  turn : ∀ count, s.turn = some count →
    count ≤ s.messages.length ∧ s.messages.length ≤ count + 1
  history : s.revisions s.reserved = s.rewriteRevision →
    (s.frozen s.reserved).dropLast <+: s.kept
  ahead : s.revisions s.reserved = s.rewriteRevision → s.behind = false →
    (s.frozen s.reserved).length ≤ s.messages.length
  saves : ∀ save ∈ s.saves, Good s save

theorem inv_init : Inv {} where
  cursor := Nat.le_refl _
  newest := Nat.le_refl _
  replays := rfl
  count := Nat.le_refl _
  rewrite := .inl rfl
  rising := fun _ _ => Nat.le_refl _
  bounded := Nat.le_refl _
  turn := fun _ h => by contradiction
  history := fun _ => List.nil_prefix
  ahead := fun _ _ => Nat.le_refl _
  saves := fun _ h => by contradiction

/-- A save keeps what it knows while nothing it looks at changes. -/
theorem Good.mono (h : Good s save) (hreserved : s.reserved ≤ s'.reserved)
    (hnewest : s.files.newestPersistedSequence ≤ s'.files.newestPersistedSequence)
    (hfrozen : ∀ k, k ≤ s.reserved → s'.frozen k = s.frozen k)
    (hrevisions : ∀ k, k ≤ s.reserved → s'.revisions k = s.revisions k) : Good s' save where
  positive := h.positive
  reserved := Nat.le_trans h.reserved hreserved
  revision := by rw [hrevisions _ h.reserved, h.revision]
  count := by rw [hfrozen _ h.reserved, h.count]
  checkpoint := by
    rw [hfrozen _ h.reserved]
    exact h.checkpoint
  delta := by
    rw [hfrozen _ h.reserved]
    exact h.delta
  place := by
    have hbelow := h.reserved
    rw [hfrozen _ h.reserved, hfrozen (save.sequence - 1) (by omega)]
    exact fun hmanual => (h.place hmanual).imp_right fun ⟨hle, hrest⟩ => ⟨by omega, hrest⟩
  persisted := fun hfrozen hdone => Nat.le_trans (h.persisted hfrozen hdone) hnewest

/-- The steps of the history keep the files and the saves. -/
theorem Inv.saves_of (h : Inv s) (hfiles : s'.files = s.files) (hreserved : s'.reserved = s.reserved)
    (hfrozen : s'.frozen = s.frozen) (hrevisions : s'.revisions = s.revisions)
    (hsaves : s'.saves = s.saves) : ∀ save ∈ s'.saves, Good s' save := by
  rw [hsaves]
  exact fun save hsave => (h.saves save hsave).mono (Nat.le_of_eq hreserved.symm)
    (by rw [hfiles]) (fun _ _ => by rw [hfrozen]) fun _ _ => by rw [hrevisions]

/-- A save goes on to a stage for which it is persisted, if the stage asks for it. -/
theorem Inv.setStage (h : Inv s) (hsave : s.saves[i]? = some save) {stage : Stage}
    (hstage : stage ≠ .frozen → stage ≠ .done →
      save.sequence ≤ s.files.newestPersistedSequence) : Inv (s.setStage i save stage) where
  cursor := h.cursor
  newest := h.newest
  replays := h.replays
  count := h.count
  rewrite := h.rewrite
  rising := h.rising
  bounded := h.bounded
  turn := h.turn
  history := h.history
  ahead := h.ahead
  saves := by
    have hgood := h.saves save (List.mem_of_getElem? hsave)
    intro other hother
    obtain hmem | rfl := List.mem_or_eq_of_mem_set hother
    · exact { h.saves other hmem with }
    · exact { hgood with persisted := hstage }

/-- The files change to what a save has frozen, or not at all. -/
theorem Inv.setFiles (h : Inv s) {files : SavedFiles} {n : Nat}
    (hnewest : s.files.newestPersistedSequence ≤ n) (hreserved : n ≤ s.reserved)
    (hreplays : files.replay = .ok (n, s.frozen n)) : Inv { s with files } := by
  obtain rfl := replay_newest hreplays
  exact {
    cursor := Nat.le_trans h.cursor hnewest
    newest := hreserved
    replays := hreplays
    count := h.count
    rewrite := h.rewrite
    rising := h.rising
    bounded := h.bounded
    turn := h.turn
    history := h.history
    ahead := h.ahead
    saves := fun save hsave => (h.saves save hsave).mono (Nat.le_refl _) hnewest
      (fun _ _ => rfl) fun _ _ => rfl }

/-- The cursor moves to a save that is persisted. -/
theorem Inv.moveCursor (h : Inv s) (hgood : Good s save)
    (hpersisted : save.sequence ≤ s.files.newestPersistedSequence) :
    Inv (s.moveCursor save) where
  cursor := hpersisted
  newest := h.newest
  replays := h.replays
  count := Nat.le_of_eq hgood.count
  rewrite := by
    simp only [State.moveCursor]
    split
    · rename_i hrevision
      have hbounded := h.bounded
      have hrising := h.rising save.sequence hgood.reserved
      rw [← hgood.revision, ← hrevision] at hrising
      exact .inr ⟨rfl, Nat.le_antisymm hbounded hrising⟩
    · exact h.rewrite
  rising := h.rising
  bounded := h.bounded
  turn := h.turn
  history := h.history
  ahead := h.ahead
  saves := h.saves_of rfl rfl rfl rfl rfl

/-! ## beginning a save -/

theorem Inv.reserve_eq (h : Inv s) : max s.reserved s.sequence + 1 = s.reserved + 1 := by
  have hcursor := Nat.le_trans h.cursor h.newest
  rw [Nat.max_eq_left hcursor]

/-- All but the last message is kept, whatever becomes of the turn. -/
theorem Inv.dropLast_kept (h : Inv s) : s.messages.dropLast <+: s.kept := by
  cases hturn : s.turn with
  | none =>
      rw [State.kept, hturn]
      exact List.dropLast_prefix _
  | some count =>
      rw [State.kept, hturn, List.dropLast_eq_take]
      have hcount := (h.turn count hturn).2
      exact List.take_prefix_take_left (by omega)

theorem State.kept_prefix (s : State) : s.kept <+: s.messages := by
  unfold State.kept
  split
  · exact List.take_prefix _ _
  · exact List.prefix_rfl

/-- A list whose front is a front of another one agrees with it as far as the front goes. -/
theorem take_of_dropLast {α : Type} {a b : List α} (h : a.dropLast <+: b) {k : Nat}
    (hk : k ≤ a.dropLast.length) : a.take k = b.take k := by
  have hfront : a.take k = a.dropLast.take k := by
    rw [List.length_dropLast] at hk
    rw [List.dropLast_eq_take, List.take_take, Nat.min_eq_left hk]
  rw [hfront, List.prefix_iff_eq_take.mp h, List.take_take, Nat.min_eq_left hk]

/-- What is begun with the next sequence has frozen the history. -/
theorem Inv.reserve (h : Inv s) {save : Save} (hstage : save.stage = .frozen)
    (hcount : save.messageCount = s.messages.length)
    (hcheckpoint : ∀ messages, save.checkpoint = some messages → messages = s.messages)
    (hdelta : save.manual = false → save.messages = s.messages.drop save.replaceFrom)
    (hplace : save.manual = false → save.replaceFrom = 0 ∨
      s.reserved ≤ s.files.newestPersistedSequence ∧
        save.replaceFrom ≤ (s.frozen s.reserved).length ∧
        (s.frozen s.reserved).take save.replaceFrom = s.messages.take save.replaceFrom) :
    Inv (s.reserve save) := by
  have hnext := h.reserve_eq
  have hnewest := h.newest
  have hcursor := h.cursor
  have hold : ∀ {α : Type} (f : Nat → α) (v : α) (k : Nat), k ≤ s.reserved →
      Function.update f (s.reserved + 1) v k = f k :=
    fun f v k hk => Function.update_of_ne (by omega) v f
  have hself : ∀ {α : Type} (f : Nat → α) (v : α),
      Function.update f (s.reserved + 1) v (s.reserved + 1) = v :=
    fun f v => Function.update_self _ v f
  unfold State.reserve
  rw [hnext]
  exact {
    cursor := h.cursor
    newest := Nat.le_succ_of_le h.newest
    replays := by
      dsimp only
      rw [h.replays, hold _ _ _ h.newest]
    count := by
      dsimp only
      rw [hold _ _ _ (Nat.le_trans h.cursor h.newest)]
      exact h.count
    rewrite := by
      dsimp only
      rw [hself]
      exact h.rewrite.imp_right fun hnone => ⟨hnone.1, rfl⟩
    rising := fun k hk => by
      dsimp only at hk ⊢
      rw [hself]
      obtain hlt | rfl := Nat.lt_or_eq_of_le hk
      · rw [hold _ _ _ (Nat.le_of_lt_succ hlt)]
        exact Nat.le_trans (h.rising k (Nat.le_of_lt_succ hlt)) h.bounded
      · rw [hself]
    bounded := by
      dsimp only
      rw [hself]
    turn := h.turn
    history := fun _ => by
      dsimp only
      rw [hself]
      exact h.dropLast_kept
    ahead := fun _ _ => by
      dsimp only
      rw [hself]
    saves := fun other hother => by
      obtain hmem | hnew := List.mem_append.mp hother
      · exact (h.saves other hmem).mono (Nat.le_succ _) (Nat.le_refl _)
          (fun k hk => hold _ _ k hk) fun k hk => hold _ _ k hk
      · obtain rfl := List.mem_singleton.mp hnew
        exact {
          positive := Nat.succ_pos _
          reserved := Nat.le_refl _
          revision := (hself _ _).symm
          count := by
            dsimp only
            rw [hself, hcount]
          checkpoint := by
            dsimp only
            rw [hself]
            exact hcheckpoint
          delta := by
            dsimp only
            rw [hself]
            exact hdelta
          place := fun hmanual => by
            dsimp only
            rw [hself, Nat.add_sub_cancel, hold _ _ _ (Nat.le_refl _)]
            exact (hplace hmanual).imp_right fun ⟨hle, hrest⟩ => ⟨by omega, hrest⟩
          persisted := fun hfrozen => absurd hstage hfrozen } }

/-- **A delta fits behind the last save**: it carries everything, or the last save is persisted
and has frozen the messages the delta leaves out. -/
theorem Inv.replaceFrom (h : Inv s) : s.replaceFrom = 0 ∨
    s.reserved ≤ s.files.newestPersistedSequence ∧
      s.replaceFrom ≤ (s.frozen s.reserved).length ∧
      (s.frozen s.reserved).take s.replaceFrom = s.messages.take s.replaceFrom := by
  have hcursor := h.cursor
  have hnewest := h.newest
  obtain hrewrite | ⟨hrewrite, hrevision⟩ := h.rewrite
  · left
    simp only [State.replaceFrom, hrewrite]
    omega
  · by_cases hpending : s.sequence < s.reserved
    · left
      simp only [State.replaceFrom, hrewrite, hpending, if_true, ne_eq, not_true_eq_false,
        if_false]
    · have hcurrent : s.sequence = s.reserved := by omega
      have hcount := h.count
      rw [hcurrent] at hcount
      by_cases hzero : min s.messageCount s.messages.length = 0
      · left
        simp only [State.replaceFrom, hrewrite, hpending, if_false, hzero, ne_eq,
          not_true_eq_false]
      · right
        have hstart : s.replaceFrom = min s.messageCount s.messages.length - 1 := by
          simp only [State.replaceFrom, hrewrite, hpending, if_false, hzero, ne_eq,
            not_false_eq_true, if_true]
        have hlast : s.replaceFrom ≤ (s.frozen s.reserved).dropLast.length := by
          rw [List.length_dropLast, hstart]
          omega
        refine ⟨by omega, by omega, ?_⟩
        exact take_of_dropLast ((h.history hrevision).trans s.kept_prefix) hlast

/-! ## the steps of a save -/

theorem appendSnapshotDelta_eq_ok {files files' : SavedFiles} {sequence replaceFrom : Nat}
    {messages : List Message}
    (h : files.appendSnapshotDelta sequence replaceFrom messages = .ok files') :
    validateMessages messages = .ok () ∧ files' = { files with
      journal := files.journal ++ [⟨sequence, replaceFrom, replaceFrom + messages.length,
        messages⟩] } := by
  unfold SavedFiles.appendSnapshotDelta at h
  simp only [bind, Except.bind, pure, Except.pure, throw, throwThe, MonadExceptOf.throw] at h
  split at h
  · contradiction
  · cases hvalid : validateMessages messages with
    | error e =>
        rw [hvalid] at h
        contradiction
    | ok u =>
        rw [hvalid] at h
        cases h
        exact ⟨rfl, rfl⟩

theorem replay_append (files : SavedFiles) (record : JournalRecord) :
    ({ files with journal := files.journal ++ [record] } : SavedFiles).replay =
      files.replay >>= fun state => replayRecord state record := by
  unfold SavedFiles.replay
  rw [List.foldlM_append]
  simp only [List.foldlM_cons, List.foldlM_nil, bind_pure]

/-- **A record that is appended** is skipped if something newer is persisted, and else the
files hold what its save has frozen. -/
theorem Inv.append (h : Inv s) (hgood : Good s save) (hmanual : save.manual = false)
    {files : SavedFiles}
    (hok : s.files.appendSnapshotDelta save.sequence save.replaceFrom save.messages = .ok files) :
    Inv { s with files } ∧ save.sequence ≤ files.newestPersistedSequence := by
  obtain ⟨hvalid, rfl⟩ := appendSnapshotDelta_eq_ok hok
  by_cases hskip : save.sequence ≤ s.files.newestPersistedSequence
  · have hreplay := replay_append s.files ⟨save.sequence, save.replaceFrom,
      save.replaceFrom + save.messages.length, save.messages⟩
    rw [h.replays] at hreplay
    have hsame : replayRecord (s.files.newestPersistedSequence,
        s.frozen s.files.newestPersistedSequence) ⟨save.sequence, save.replaceFrom,
          save.replaceFrom + save.messages.length, save.messages⟩ = _ := replayRecord_skip hskip
    have hall := hreplay.trans hsame
    exact ⟨h.setFiles (Nat.le_refl _) h.newest hall, by rw [replay_newest hall]; exact hskip⟩
  · have hlt : s.files.newestPersistedSequence < save.sequence := Nat.lt_of_not_le hskip
    obtain ⟨hle, htake⟩ : save.replaceFrom ≤ (s.frozen s.files.newestPersistedSequence).length ∧
        (s.frozen s.files.newestPersistedSequence).take save.replaceFrom =
          (s.frozen save.sequence).take save.replaceFrom := by
      obtain hzero | ⟨hnext, hle, htake⟩ := hgood.place hmanual
      · rw [hzero]
        exact ⟨Nat.zero_le _, rfl⟩
      · have hlast : save.sequence - 1 = s.files.newestPersistedSequence := by omega
        rw [hlast] at hle htake
        exact ⟨hle, htake⟩
    have hreplay := replay_append s.files ⟨save.sequence, save.replaceFrom,
      save.replaceFrom + save.messages.length, save.messages⟩
    rw [h.replays] at hreplay
    have hset : replayRecord (s.files.newestPersistedSequence,
        s.frozen s.files.newestPersistedSequence) ⟨save.sequence, save.replaceFrom,
          save.replaceFrom + save.messages.length, save.messages⟩ = _ :=
      replayRecord_next hlt hle hvalid rfl
    dsimp only at hset
    rw [htake, hgood.delta hmanual, List.take_append_drop] at hset
    rw [hgood.delta hmanual] at hreplay
    have hall := hreplay.trans hset
    rw [hgood.delta hmanual]
    exact ⟨h.setFiles (Nat.le_of_lt hlt) hgood.reserved hall,
      Nat.le_of_eq (replay_newest hall).symm⟩

theorem Inv.write (h : Inv s) (hsave : s.saves[i]? = some save) (hmanual : save.manual = false)
    (outcome : Outcome) : Inv (s.write i save outcome) := by
  have hgood := h.saves save (List.mem_of_getElem? hsave)
  have hdone : Inv (s.setStage i save .done) := h.setStage hsave fun _ hne => absurd rfl hne
  unfold State.write
  split
  · rename_i files hok
    obtain ⟨hinv, hpersisted⟩ := h.append hgood hmanual hok
    exact hinv.setStage hsave fun _ _ => hpersisted
  · rename_i files hok
    obtain ⟨hinv, -⟩ := h.append hgood hmanual hok
    exact hinv.setStage hsave fun _ hne => absurd rfl hne
  · exact hdone

theorem Inv.advance (h : Inv s) (hsave : s.saves[i]? = some save) (hstage : save.stage = .appended) :
    Inv (s.advance i save) := by
  have hgood := h.saves save (List.mem_of_getElem? hsave)
  have hpersisted := hgood.persisted (by rw [hstage]; decide) (by rw [hstage]; decide)
  unfold State.advance
  split
  · exact h.setStage hsave fun _ hne => absurd rfl hne
  · exact (h.moveCursor hgood hpersisted).setStage hsave fun _ _ => hpersisted

/-- The threshold of the next compaction plays no part in what is promised. -/
theorem Inv.setNext (h : Inv s) (nextCheckpoint : Nat) : Inv { s with nextCheckpoint } where
  cursor := h.cursor
  newest := h.newest
  replays := h.replays
  count := h.count
  rewrite := h.rewrite
  rising := h.rising
  bounded := h.bounded
  turn := h.turn
  history := h.history
  ahead := h.ahead
  saves := h.saves_of rfl rfl rfl rfl rfl

/-- **A checkpoint** leaves the files, or they hold what its save has frozen. -/
theorem Inv.checkpoint (h : Inv s) (hsave : s.saves[i]? = some save) (fault : SavedFiles.Fault)
    (returned : Stage) : Inv (s.checkpoint i save fault returned) := by
  have hgood := h.saves save (List.mem_of_getElem? hsave)
  unfold State.checkpoint
  split
  · exact h
  · rename_i messages hmessages
    obtain rfl := hgood.checkpoint messages hmessages
    dsimp only
    obtain heq | ⟨hnewest, hreplays⟩ :=
      checkpointSnapshot_cases s.files (s.frozen save.sequence) save.sequence fault
    · rw [heq]
      exact (h.setNext _).setStage hsave fun _ hne => absurd rfl hne
    · have hinv := h.setFiles hnewest hgood.reserved hreplays
      exact (hinv.setNext _).setStage hsave fun _ _ => Nat.le_of_eq (replay_newest hreplays).symm

theorem Inv.settle (h : Inv s) (hsave : s.saves[i]? = some save)
    (hstage : save.stage = .published) : Inv (s.settle i save) := by
  have hgood := h.saves save (List.mem_of_getElem? hsave)
  have hpersisted := hgood.persisted (by rw [hstage]; decide) (by rw [hstage]; decide)
  exact ((h.moveCursor hgood hpersisted).setNext _).setStage hsave fun _ hne => absurd rfl hne

/-! ## the runs -/

theorem State.kept_eq (hturn : s.turn = none) : s.kept = s.messages := by
  rw [State.kept, hturn]

theorem Inv.length_le (h : Inv s) (hrevision : s.revisions s.reserved = s.rewriteRevision) :
    (s.frozen s.reserved).length ≤ s.messages.length + 1 := by
  have hlength := ((h.history hrevision).trans s.kept_prefix).length_le
  rw [List.length_dropLast] at hlength
  omega

/-- The history changes outside of a user turn, behind what the last save has frozen. -/
theorem Inv.setMessages (h : Inv s) (hturn : s.turn = none) {messages : List Message}
    (hhistory : s.revisions s.reserved = s.rewriteRevision →
      (s.frozen s.reserved).dropLast <+: messages ∧
        (s.frozen s.reserved).length ≤ messages.length) (behind : Bool) :
    Inv { s with messages, behind } where
  cursor := h.cursor
  newest := h.newest
  replays := h.replays
  count := h.count
  rewrite := h.rewrite
  rising := h.rising
  bounded := h.bounded
  turn := fun count hcount => by
    dsimp only at hcount
    rw [hturn] at hcount
    contradiction
  history := fun hrevision => by
    rw [@State.kept_eq { s with messages, behind } hturn]
    exact (hhistory hrevision).1
  ahead := fun hrevision _ => (hhistory hrevision).2
  saves := h.saves_of rfl rfl rfl rfl rfl

theorem Inv.fold (h : Inv s) (hturn : s.turn = none) (hbehind : s.behind = false)
    (hne : s.messages ≠ []) (message : Message) :
    Inv { s with messages := s.messages.dropLast ++ [message] } := by
  refine h.setMessages hturn (fun hrevision => ?_) s.behind
  have hlength : (s.messages.dropLast ++ [message]).length = s.messages.length := by
    have hpos := List.length_pos_of_ne_nil hne
    rw [List.length_append, List.length_dropLast, List.length_singleton]
    omega
  have hahead := h.ahead hrevision hbehind
  have hprefix := h.history hrevision
  rw [State.kept_eq hturn] at hprefix
  refine ⟨List.prefix_append_of_prefix ?_, by omega⟩
  refine List.prefix_of_prefix_length_le hprefix (List.dropLast_prefix _) ?_
  rw [List.length_dropLast, List.length_dropLast]
  omega

theorem Inv.rewriteAll (h : Inv s) (hturn : s.turn = none) (messages : List Message) :
    Inv { s with
      messages, behind := false, rewriteFrom := some 0
      rewriteRevision := s.rewriteRevision + 1 } where
  cursor := h.cursor
  newest := h.newest
  replays := h.replays
  count := h.count
  rewrite := .inl rfl
  rising := h.rising
  bounded := Nat.le_succ_of_le h.bounded
  turn := fun count hcount => by
    dsimp only at hcount
    rw [hturn] at hcount
    contradiction
  history := fun hrevision => by
    have hbounded := h.bounded
    dsimp only at hrevision
    omega
  ahead := fun hrevision => by
    have hbounded := h.bounded
    dsimp only at hrevision
    omega
  saves := h.saves_of rfl rfl rfl rfl rfl

theorem Inv.beginTurn (h : Inv s) (hturn : s.turn = none) (message : Option Message) :
    Inv { s with
      messages := s.messages ++ message.toList, turn := some s.messages.length
      behind := s.behind && message.isNone } where
  cursor := h.cursor
  newest := h.newest
  replays := h.replays
  count := h.count
  rewrite := h.rewrite
  rising := h.rising
  bounded := h.bounded
  turn := fun count hcount => by
    obtain rfl := Option.some.inj hcount
    cases message <;> simp
  history := fun hrevision => by
    have hhistory := h.history hrevision
    rw [State.kept_eq hturn] at hhistory
    rw [State.kept]
    dsimp only
    rw [List.take_left]
    exact hhistory
  ahead := fun hrevision hbehind => by
    have hlength := h.length_le hrevision
    dsimp only at hbehind ⊢
    cases message with
    | none =>
        rw [Option.isNone_none, Bool.and_true] at hbehind
        rw [Option.toList_none, List.append_nil]
        exact h.ahead hrevision hbehind
    | some message =>
        rw [Option.toList_some, List.length_append, List.length_singleton]
        exact hlength
  saves := h.saves_of rfl rfl rfl rfl rfl

/-- A turn that is over, with the history it leaves. -/
theorem Inv.endTurn (h : Inv s) {messages : List Message} (hkept : s.kept <+: messages)
    {behind : Bool} (hahead : behind = false →
      s.behind = false ∧ s.messages.length ≤ messages.length) :
    Inv { s with messages, turn := none, behind } where
  cursor := h.cursor
  newest := h.newest
  replays := h.replays
  count := h.count
  rewrite := h.rewrite
  rising := h.rising
  bounded := h.bounded
  turn := fun _ hcount => by contradiction
  history := fun hrevision => (h.history hrevision).trans hkept
  ahead := fun hrevision hbehind => by
    obtain ⟨hold, hlength⟩ := hahead hbehind
    exact Nat.le_trans (h.ahead hrevision hold) hlength
  saves := h.saves_of rfl rfl rfl rfl rfl

/-- **Every step keeps the invariant.** -/
theorem Inv.act (h : Inv s) (action : Action) : Inv (s.act action) := by
  cases action with
  | append message =>
      rw [State.act]
      split
      · rename_i hturn
        refine h.setMessages hturn (fun hrevision => ?_) false
        have hlength := h.length_le hrevision
        have hprefix := (h.history hrevision).trans s.kept_prefix
        exact ⟨List.prefix_append_of_prefix hprefix, by
          rw [List.length_append, List.length_singleton]
          exact hlength⟩
      · exact h
  | fold message =>
      rw [State.act]
      split
      · rename_i hfold
        exact h.fold hfold.1 hfold.2.1 hfold.2.2 message
      · exact h
  | rewrite messages =>
      rw [State.act]
      split
      · rename_i hturn
        exact h.rewriteAll hturn messages
      · exact h
  | beginTurn message =>
      rw [State.act]
      split
      · rename_i hturn
        exact h.beginTurn hturn message
      · exact h
  | commitTurn => exact h.endTurn s.kept_prefix fun hbehind => ⟨hbehind, Nat.le_refl _⟩
  | rollbackTurn =>
      rw [State.act]
      split
      · rename_i count hturn
        refine h.endTurn ?_ fun hbehind => by contradiction
        rw [State.kept, hturn]
      · exact h
  | prepare =>
      exact h.reserve rfl rfl (fun messages hmessages => by
        split at hmessages
        · exact (Option.some.inj hmessages).symm
        · contradiction) (fun _ => rfl) fun _ => h.replaceFrom
  | save =>
      exact h.reserve rfl rfl (fun messages hmessages => (Option.some.inj hmessages).symm)
        (fun hmanual => by contradiction) fun hmanual => by contradiction
  | write i outcome =>
      rw [State.act]
      split
      · rename_i save hsave
        split
        · rename_i hstage
          exact h.write hsave hstage.2 outcome
        · exact h
      · exact h
  | advance i =>
      rw [State.act]
      split
      · rename_i save hsave
        split
        · rename_i hstage
          exact h.advance hsave hstage
        · exact h
      · exact h
  | compact i fault =>
      rw [State.act]
      split
      · rename_i save hsave
        split
        · exact h.checkpoint hsave fault .done
        · exact h
      · exact h
  | publish i fault =>
      rw [State.act]
      split
      · rename_i save hsave
        split
        · exact h.checkpoint hsave fault .published
        · exact h
      · exact h
  | settle i =>
      rw [State.act]
      split
      · rename_i save hsave
        split
        · rename_i hstage
          exact h.settle hsave hstage
        · exact h
      · exact h
  | leave i =>
      rw [State.act]
      split
      · rename_i save hsave
        exact h.setStage hsave fun _ hne => absurd rfl hne
      · exact h

/-- A run of a session that begins without files. -/
def run (actions : List Action) : State := actions.foldl State.act {}

theorem inv_run (actions : List Action) : Inv (run actions) := by
  have hall : ∀ (actions : List Action) (s : State), Inv s → Inv (actions.foldl State.act s) := by
    intro actions
    induction actions with
    | nil => exact fun s h => h
    | cons action actions ih => exact fun s h => ih _ (h.act action)
  exact hall actions {} inv_init

/-- What was frozen stays frozen, and nothing older is read later. -/
structure Later (s s' : State) : Prop where
  newest : s.files.newestPersistedSequence ≤ s'.files.newestPersistedSequence
  reserved : s.reserved ≤ s'.reserved
  frozen : ∀ k, k ≤ s.reserved → s'.frozen k = s.frozen k

theorem Later.refl (s : State) : Later s s := ⟨Nat.le_refl _, Nat.le_refl _, fun _ _ => rfl⟩

theorem Later.trans {s'' : State} (h : Later s s') (h' : Later s' s'') : Later s s'' where
  newest := Nat.le_trans h.newest h'.newest
  reserved := Nat.le_trans h.reserved h'.reserved
  frozen := fun k hk => by
    rw [h'.frozen k (Nat.le_trans hk h.reserved), h.frozen k hk]

/-- The files are the same or newer, and nothing is reserved. -/
theorem Later.of_files (hfiles : s.files.newestPersistedSequence ≤
    s'.files.newestPersistedSequence) (hreserved : s'.reserved = s.reserved)
    (hfrozen : s'.frozen = s.frozen) : Later s s' :=
  ⟨hfiles, Nat.le_of_eq hreserved.symm, fun _ _ => by rw [hfrozen]⟩

theorem newest_append (files : SavedFiles) (record : JournalRecord) :
    files.newestPersistedSequence ≤
      ({ files with journal := files.journal ++ [record] } :
        SavedFiles).newestPersistedSequence := by
  rw [SavedFiles.newestPersistedSequence, SavedFiles.newestPersistedSequence, List.foldl_append]
  exact (le_foldl_max [record] _).1

theorem Later.reserve (h : Inv s) (save : Save) : Later s (s.reserve save) := by
  have hnext := h.reserve_eq
  unfold State.reserve
  rw [hnext]
  exact ⟨Nat.le_refl _, Nat.le_succ _, fun k hk => Function.update_of_ne (by omega) _ _⟩

theorem Later.write (s : State) (i : Nat) (save : Save) (outcome : Outcome) :
    Later s (s.write i save outcome) := by
  have hnewer : ∀ files, s.files.appendSnapshotDelta save.sequence save.replaceFrom
      save.messages = .ok files →
        s.files.newestPersistedSequence ≤ files.newestPersistedSequence := by
    intro files hok
    obtain ⟨-, rfl⟩ := appendSnapshotDelta_eq_ok hok
    exact newest_append _ _
  unfold State.write
  split
  · rename_i files hok
    exact .of_files (hnewer files hok) rfl rfl
  · rename_i files hok
    exact .of_files (hnewer files hok) rfl rfl
  · exact .of_files (Nat.le_refl _) rfl rfl

theorem Later.checkpoint (s : State) (i : Nat) (save : Save) (fault : SavedFiles.Fault)
    (returned : Stage) : Later s (s.checkpoint i save fault returned) := by
  unfold State.checkpoint
  split
  · exact .refl s
  · rename_i messages hmessages
    refine .of_files ?_ rfl rfl
    obtain heq | ⟨hnewest, hreplays⟩ :=
      checkpointSnapshot_cases s.files messages save.sequence fault
    · dsimp only [State.setStage]
      rw [heq]
    · exact Nat.le_trans hnewest (Nat.le_of_eq (replay_newest hreplays).symm)

/-- **No step takes anything back.** -/
theorem Later.act (h : Inv s) (action : Action) : Later s (s.act action) := by
  have hsame : ∀ s' : State, s'.files = s.files → s'.reserved = s.reserved →
      s'.frozen = s.frozen → Later s s' := fun s' hfiles hreserved hfrozen =>
    .of_files (by rw [hfiles]) hreserved hfrozen
  cases action with
  | prepare => exact .reserve h _
  | save => exact .reserve h _
  | write i outcome =>
      rw [State.act]
      split
      · split
        · exact .write s i _ outcome
        · exact .refl s
      · exact .refl s
  | compact i fault =>
      rw [State.act]
      split
      · split
        · exact .checkpoint s i _ fault _
        · exact .refl s
      · exact .refl s
  | publish i fault =>
      rw [State.act]
      split
      · split
        · exact .checkpoint s i _ fault _
        · exact .refl s
      · exact .refl s
  | advance i =>
      rw [State.act]
      split
      · split
        · unfold State.advance
          split <;> exact hsame _ rfl rfl rfl
        · exact .refl s
      · exact .refl s
  | rollbackTurn =>
      rw [State.act]
      split
      · exact hsame _ rfl rfl rfl
      · exact .refl s
  | commitTurn => exact hsame _ rfl rfl rfl
  | append message | fold message | rewrite messages | beginTurn message =>
      rw [State.act]
      split
      · exact hsame _ rfl rfl rfl
      · exact .refl s
  | settle i =>
      rw [State.act]
      split
      · split
        · exact hsame _ rfl rfl rfl
        · exact .refl s
      · exact .refl s
  | leave i =>
      rw [State.act]
      split
      · exact hsame _ rfl rfl rfl
      · exact .refl s

/-- The actions of the saves that are under way. -/
def Action.isStep : Action → Bool
  | .write .. | .advance .. | .compact .. | .publish .. | .settle .. | .leave .. => true
  | _ => false

/-- The actions of saves: they leave the history and the turn. -/
def Action.isSave : Action → Bool
  | .prepare | .save => true
  | action => action.isStep

/-- A step of a save leaves the history, and what was frozen. -/
theorem act_of_isStep {action : Action} (h : action.isStep = true) (s : State) :
    (s.act action).messages = s.messages ∧ (s.act action).turn = s.turn ∧
      (s.act action).reserved = s.reserved ∧ (s.act action).frozen = s.frozen := by
  cases action with
  | append | fold | rewrite | beginTurn | commitTurn | rollbackTurn | prepare | save =>
      contradiction
  | write i outcome =>
      rw [State.act]
      split
      · split
        · unfold State.write
          split <;> exact ⟨rfl, rfl, rfl, rfl⟩
        · exact ⟨rfl, rfl, rfl, rfl⟩
      · exact ⟨rfl, rfl, rfl, rfl⟩
  | advance i =>
      rw [State.act]
      split
      · split
        · unfold State.advance
          split <;> exact ⟨rfl, rfl, rfl, rfl⟩
        · exact ⟨rfl, rfl, rfl, rfl⟩
      · exact ⟨rfl, rfl, rfl, rfl⟩
  | compact i fault | publish i fault =>
      rw [State.act]
      split
      · split
        · unfold State.checkpoint
          split <;> exact ⟨rfl, rfl, rfl, rfl⟩
        · exact ⟨rfl, rfl, rfl, rfl⟩
      · exact ⟨rfl, rfl, rfl, rfl⟩
  | settle i =>
      rw [State.act]
      split
      · split <;> exact ⟨rfl, rfl, rfl, rfl⟩
      · exact ⟨rfl, rfl, rfl, rfl⟩
  | leave i =>
      rw [State.act]
      split <;> exact ⟨rfl, rfl, rfl, rfl⟩

theorem act_of_isSave {action : Action} (h : action.isSave = true) (s : State) :
    (s.act action).messages = s.messages ∧ (s.act action).turn = s.turn := by
  by_cases hstep : action.isStep = true
  · obtain ⟨hmessages, hturn, -⟩ := act_of_isStep hstep s
    exact ⟨hmessages, hturn⟩
  · cases action with
    | prepare | save => exact ⟨rfl, rfl⟩
    | _ => contradiction

theorem foldl_saves {actions : List Action} (h : ∀ action ∈ actions, action.isSave = true)
    (s : State) : (actions.foldl State.act s).messages = s.messages ∧
      (actions.foldl State.act s).turn = s.turn := by
  induction actions generalizing s with
  | nil => exact ⟨rfl, rfl⟩
  | cons action actions ih =>
      obtain ⟨hmessages, hturn⟩ := act_of_isSave (h action List.mem_cons_self) s
      obtain ⟨hmessages', hturn'⟩ := ih (fun a ha => h a (List.mem_cons_of_mem _ ha)) (s.act action)
      exact ⟨hmessages'.trans hmessages, hturn'.trans hturn⟩

theorem foldl_steps {actions : List Action} (h : ∀ action ∈ actions, action.isStep = true)
    (s : State) : (actions.foldl State.act s).messages = s.messages ∧
      (actions.foldl State.act s).reserved = s.reserved ∧
      (actions.foldl State.act s).frozen = s.frozen := by
  induction actions generalizing s with
  | nil => exact ⟨rfl, rfl, rfl⟩
  | cons action actions ih =>
      obtain ⟨hmessages, -, hreserved, hfrozen⟩ := act_of_isStep (h action List.mem_cons_self) s
      obtain ⟨hmessages', hreserved', hfrozen'⟩ :=
        ih (fun a ha => h a (List.mem_cons_of_mem _ ha)) (s.act action)
      exact ⟨hmessages'.trans hmessages, hreserved'.trans hreserved, hfrozen'.trans hfrozen⟩

theorem run_append (actions later : List Action) :
    run (actions ++ later) = later.foldl State.act (run actions) := List.foldl_append

theorem later_run (actions later : List Action) : Later (run actions) (run (actions ++ later)) := by
  rw [run_append]
  have hall : ∀ (later : List Action) (s : State), Inv s →
      Later s (later.foldl State.act s) := by
    intro later
    induction later with
    | nil => exact fun s _ => .refl s
    | cons action later ih => exact fun s h => (Later.act h action).trans (ih _ (h.act action))
  exact hall later _ (inv_run actions)

/-! ## loading -/

/-- A step leaves the files, or a save is persisted behind it. -/
theorem act_files (s : State) (action : Action) :
    (s.act action).files = s.files ∨
      ∃ persisted ∈ s.saves,
        persisted.sequence ≤ (s.act action).files.newestPersistedSequence := by
  have hwrite : ∀ i save outcome, s.saves[i]? = some save →
      (s.write i save outcome).files = s.files ∨ ∃ persisted ∈ s.saves,
        persisted.sequence ≤ (s.write i save outcome).files.newestPersistedSequence := by
    intro i save outcome hsave
    have hmem := List.mem_of_getElem? hsave
    have happended : ∀ files, s.files.appendSnapshotDelta save.sequence save.replaceFrom
        save.messages = .ok files → save.sequence ≤ files.newestPersistedSequence := by
      intro files hok
      obtain ⟨-, rfl⟩ := appendSnapshotDelta_eq_ok hok
      exact @sequence_le_newest _ ⟨save.sequence, save.replaceFrom,
        save.replaceFrom + save.messages.length, save.messages⟩
        (List.mem_append_right _ List.mem_cons_self)
    unfold State.write
    split
    · rename_i files hok
      exact .inr ⟨save, hmem, happended files hok⟩
    · rename_i files hok
      exact .inr ⟨save, hmem, happended files hok⟩
    · exact .inl rfl
  have hcheckpoint : ∀ i save fault returned, s.saves[i]? = some save →
      (s.checkpoint i save fault returned).files = s.files ∨ ∃ persisted ∈ s.saves,
        persisted.sequence ≤ (s.checkpoint i save fault returned).files.newestPersistedSequence := by
    intro i save fault returned hsave
    unfold State.checkpoint
    split
    · exact .inl rfl
    · rename_i messages hmessages
      obtain heq | ⟨-, hreplays⟩ :=
        checkpointSnapshot_cases s.files messages save.sequence fault
      · refine .inl ?_
        dsimp only [State.setStage]
        rw [heq]
      · exact .inr ⟨save, List.mem_of_getElem? hsave,
          Nat.le_of_eq (replay_newest hreplays).symm⟩
  cases action with
  | prepare | save | commitTurn => exact .inl rfl
  | write i outcome =>
      rw [State.act]
      split
      · split
        · exact hwrite i _ outcome ‹_›
        · exact .inl rfl
      · exact .inl rfl
  | compact i fault | publish i fault =>
      rw [State.act]
      split
      · split
        · exact hcheckpoint i _ fault _ ‹_›
        · exact .inl rfl
      · exact .inl rfl
  | advance i =>
      rw [State.act]
      split
      · split
        · unfold State.advance
          split <;> exact .inl rfl
        · exact .inl rfl
      · exact .inl rfl
  | settle i =>
      rw [State.act]
      split
      · split <;> exact .inl rfl
      · exact .inl rfl
  | rollbackTurn | leave | append | fold | rewrite | beginTurn =>
      rw [State.act]
      split <;> exact .inl rfl

/-- **Without a persisted save there are no files.** -/
theorem unsaved_run (actions : List Action)
    (h : (run actions).files.newestPersistedSequence = 0) : (run actions).files = {} := by
  have hall : ∀ (actions : List Action) (s : State), Inv s →
      (s.files.newestPersistedSequence = 0 → s.files = {}) →
      (actions.foldl State.act s).files.newestPersistedSequence = 0 →
        (actions.foldl State.act s).files = {} := by
    intro actions
    induction actions with
    | nil => exact fun s _ hs => hs
    | cons action actions ih =>
        refine fun s hinv hs => ih _ (hinv.act action) fun hnewest => ?_
        obtain heq | ⟨save, hsave, hle⟩ := act_files s action
        · rw [heq] at hnewest ⊢
          exact hs hnewest
        · have hpositive := (hinv.saves save hsave).positive
          omega
  exact hall actions {} inv_init (fun _ => rfl) h

/-- What `load_snapshot` makes of files that hold the save `n`, where save 0 stands
for none. -/
structure Loads (s : State) (n : Nat) : Prop where
  replays : s.files.replay = .ok (n, s.frozen n)
  /-- There is nothing to load. -/
  nothing : n = 0 → ∀ systemPrompt, s.files.loadSnapshot systemPrompt = .error .notFound
  /-- The history is loaded as it was frozen, unless the validator refuses it. -/
  history : 0 < n → s.frozen n ≠ [] → ∀ systemPrompt,
    s.files.loadSnapshot systemPrompt =
      (validateMessages (s.frozen n)).map fun _ => s.frozen n
  /-- An empty history is refused in a snapshot, and begun anew behind a journal. -/
  empty : 0 < n → s.frozen n = [] → ∀ systemPrompt,
    s.files.loadSnapshot systemPrompt =
      if s.files.base.isSome then .error .noMessages else .ok [.ofText .system systemPrompt]

theorem Inv.loads (h : Inv s)
    (hunsaved : s.files.newestPersistedSequence = 0 → s.files = {}) :
    Loads s s.files.newestPersistedSequence := by
  have hreplay := h.replays
  have hsaved : 0 < s.files.newestPersistedSequence →
      ¬(s.files.base.isNone && s.files.journal.isEmpty) = true := by
    intro hpos hnone
    rw [Bool.and_eq_true, Option.isNone_iff_eq_none, List.isEmpty_iff] at hnone
    rw [SavedFiles.newestPersistedSequence, hnone.1, hnone.2] at hpos
    exact absurd hpos (Nat.lt_irrefl 0)
  refine ⟨hreplay, fun hzero systemPrompt => ?_, fun hpos hne systemPrompt => ?_,
    fun hpos hempty systemPrompt => ?_⟩
  · rw [hunsaved hzero]
    rfl
  · have hnonempty : (s.frozen s.files.newestPersistedSequence).isEmpty = false :=
      List.isEmpty_eq_false_iff.mpr hne
    unfold SavedFiles.loadSnapshot
    rw [if_neg (hsaved hpos)]
    unfold SavedFiles.replay at hreplay
    simp only [hreplay, bind, Except.bind, pure, Except.pure]
    cases validateMessages (s.frozen s.files.newestPersistedSequence) with
    | error e => rfl
    | ok u => simp only [hnonempty, Bool.false_eq_true, if_false, Except.map]
  · unfold SavedFiles.loadSnapshot
    rw [if_neg (hsaved hpos)]
    unfold SavedFiles.replay at hreplay
    rw [hempty] at hreplay
    simp only [hreplay, bind, Except.bind, pure, Except.pure]
    cases s.files.base with
    | none => rfl
    | some base => rfl

theorem loads_run (actions : List Action) :
    Loads (run actions) (run actions).files.newestPersistedSequence :=
  (inv_run actions).loads (unsaved_run actions)

/-- A history that the store accepts is loaded as it was frozen. -/
theorem Loads.storable {n : Nat} (h : Loads s n) (hpos : 0 < n) (hne : s.frozen n ≠ [])
    (hstorable : ∀ m ∈ s.frozen n, m.Storable) (systemPrompt : String) :
    s.files.loadSnapshot systemPrompt = .ok (s.frozen n) := by
  rw [h.history hpos hne systemPrompt, validateMessages_storable hstorable]
  rfl

/-- A turn that is begun and taken back, with saves in between, leaves the history. -/
theorem rolledBack_messages (hidle : s.turn = none) (message : Option Message)
    {during : List Action} (hduring : ∀ action ∈ during, action.isSave = true) :
    ((during.foldl State.act (s.act (.beginTurn message))).act .rollbackTurn).messages =
      s.messages := by
  obtain ⟨hmessages, hturn⟩ := foldl_saves hduring (s.act (.beginTurn message))
  have hbegun : s.act (.beginTurn message) = { s with
      messages := s.messages ++ message.toList, turn := some s.messages.length
      behind := s.behind && message.isNone } := by
    rw [State.act, if_pos hidle]
  rw [hbegun] at hmessages hturn ⊢
  rw [State.act, hturn]
  dsimp only
  rw [hmessages, List.take_left]

/-- **A user turn that is taken back leaves no trace in the files**: whatever was saved while it
was appended, and whatever became of those saves, once the cursor has caught up with the
save that follows the rollback, the files hold the history that the turn began with, and
`load_snapshot` returns it if the store accepts its messages. -/
theorem rollback_replays (before during after : List Action) (message : Option Message)
    (hidle : (run before).turn = none) (hduring : ∀ action ∈ during, action.isSave = true)
    (hafter : ∀ action ∈ after, action.isStep = true) {s : State}
    (hs : s = run (before ++ .beginTurn message :: during ++ .rollbackTurn :: .prepare :: after)) :
    s.messages = (run before).messages ∧
      (s.sequence = s.reserved →
        s.files.replay = .ok (s.reserved, (run before).messages) ∧
          ((run before).messages ≠ [] → (∀ m ∈ (run before).messages, m.Storable) →
            ∀ systemPrompt,
              s.files.loadSnapshot systemPrompt = .ok (run before).messages)) := by
  have hloads := loads_run (before ++ .beginTurn message :: during ++
    .rollbackTurn :: .prepare :: after)
  have hinv := inv_run (before ++ .beginTurn message :: during ++
    .rollbackTurn :: .prepare :: after)
  rw [← hs] at hinv hloads
  rw [run_append, run_append, List.foldl_cons, List.foldl_cons, List.foldl_cons] at hs
  obtain ⟨hmessages, hreserved, hfrozen⟩ := foldl_steps hafter
    (((during.foldl State.act ((run before).act (.beginTurn message))).act .rollbackTurn).act
      .prepare)
  rw [← hs] at hmessages hreserved hfrozen
  have hback := rolledBack_messages hidle message hduring
  refine ⟨hmessages.trans hback, fun hcurrent => ?_⟩
  have hcursor := hinv.cursor
  have hnewest := hinv.newest
  have hlast : s.files.newestPersistedSequence = s.reserved := by omega
  have hsaved : s.frozen s.reserved = (run before).messages := by
    rw [hfrozen, hreserved, ← hback]
    exact Function.update_self _ _ _
  rw [hlast] at hloads
  have hpositive : 0 < s.reserved := by
    rw [hreserved]
    exact Nat.succ_pos _
  constructor
  · rw [← hsaved]
    exact hloads.replays
  · intro hne hstorable
    rw [← hsaved] at hne hstorable ⊢
    exact hloads.storable hpositive hne hstorable

/-- A turn is saved before it is taken back, and both saves are written. -/
theorem rollback_replays_sample :
    (run ([.append (.ofText .user "first")] ++ .beginTurn (some (.ofText .user "second")) ::
      [.prepare] ++ .rollbackTurn :: .prepare ::
        [.write 0 .written, .advance 0, .write 1 .written, .advance 1])).files.loadSnapshot "" =
      .ok [.ofText .user "first"] :=
  ((rollback_replays [.append (.ofText .user "first")] [.prepare]
    [.write 0 .written, .advance 0, .write 1 .written, .advance 1]
    (some (.ofText .user "second")) rfl (by decide) (by decide) rfl).2 (by decide)).2
    (by decide) (by
      intro m hm lineno
      rw [List.mem_singleton.mp hm]
      rfl) ""

end OpenCollab.Journal
