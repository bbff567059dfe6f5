import OpenCollab.Session.Storage
import OpenCollab.Session.Lineage

/-!
# OpenCollab.Session.Persistable

What a session writes and what its store reads are checked in two places.  As
long as every batch of calls a response stores has ids and names that the store
accepts, every message list of every run is storable: every autosave delta is
accepted, and what is saved is loaded as it was (`history_persistable`).

The driver itself makes no such check before it appends the assistant message: a
batch is rejected only afterwards, and the message and the answers to it stay.

* `storing_step` — what one move keeps;
* `storing_closeEach` — closing calls adds answers to calls with an id only.
-/

namespace OpenCollab

open Lib

/-! ## closing calls -/

/-- The open calls all have an id. -/
theorem openToolCallIds_ne_empty (messages : List Message) :
    ∀ id ∈ openToolCallIds messages, id ≠ "" := by
  have hstep : ∀ (openIds : List String) (m : Message), (∀ id ∈ openIds, id ≠ "") →
      ∀ id ∈ openStep openIds m, id ≠ "" := by
    intro openIds m hopen id hid
    unfold openStep at hid
    split at hid
    · split at hid
      · exact hopen id hid
      · exact hopen id (List.mem_of_mem_erase hid)
    · split at hid
      · obtain hid | hid := List.mem_append.mp hid
        · exact hopen id hid
        · exact of_decide_eq_true (List.mem_filter.mp hid).2
      · exact hopen id hid
  have hfold : ∀ openIds : List String, (∀ id ∈ openIds, id ≠ "") →
      ∀ id ∈ messages.foldl openStep openIds, id ≠ "" := by
    induction messages with
    | nil => exact fun _ hopen => hopen
    | cons m messages ih => exact fun openIds hopen => ih _ (hstep openIds m hopen)
  exact hfold [] (by simp)

/-- Storable messages, at least one, and rows that all have an id. -/
structure Transcript.Storing (t : Transcript) : Prop where
  messages : ∀ m ∈ t.messages, m.Storable
  nonempty : t.messages ≠ []
  rows : ∀ id ∈ t.pendingEvents.ids, id ≠ ""

theorem Transcript.Storing.append {t : Transcript} (ht : t.Storing) {new : List Message}
    (hnew : ∀ m ∈ new, m.Storable) : Storing { t with messages := t.messages ++ new } where
  messages := by
    intro m hm
    exact (List.mem_append.mp hm).elim (ht.messages m) (hnew m)
  nonempty := by
    intro h
    exact ht.nonempty (List.append_eq_nil_iff.mp h).1
  rows := ht.rows

theorem Transcript.Storing.addRow {t : Transcript} (ht : t.Storing) {row : PendingRow}
    {table : PendingEventTable} (hrow : row.toolCallId ≠ "")
    (ha : t.pendingEvents.add row = some table) : Storing { t with pendingEvents := table } where
  messages := ht.messages
  nonempty := ht.nonempty
  rows := by
    intro id hid
    rw [(PendingEventTable.ids_add ha).1, List.mem_append, List.mem_singleton] at hid
    obtain hid | rfl := hid
    · exact ht.rows id hid
    · exact hrow

/-- Closing adds answers, or rows, to calls with an id. -/
theorem storing_closeEach {content : String} {exclude : Option (List String)} {receipts : Receipts}
    {calls : List (String × Nat)} {t : Transcript} (hcalls : ∀ call ∈ calls, call.1 ≠ "")
    (ht : t.Storing) : (closeEach content exclude receipts calls t).1.Storing := by
  induction calls generalizing t with
  | nil => exact ht
  | cons call rest ih =>
      obtain ⟨id, order⟩ := call
      obtain ⟨hid, hrest⟩ := List.forall_mem_cons.mp hcalls
      unfold closeEach
      split
      · exact ih hrest ht
      split
      · cases hadd : t.pendingEvents.add (closingRow content receipts id order) with
        | none => exact ht
        | some table => exact ih hrest (ht.addRow hid hadd)
      · refine ih hrest (ht.append ?_)
        intro m hm
        rw [List.mem_singleton.mp hm]
        exact storable_toolResult hid _

/-! ## what a move keeps -/

namespace Machine

variable {h : Host} {m m' : Machine}

/-- **The machine is storing**: its transcript is, and so are the calls of the
response it handles; a batch is executed only if the response stores it. -/
structure Storing (m : Machine) : Prop where
  transcript : Transcript.Storing ⟨m.messages, m.table⟩
  response : ∀ r ∈ m.response, CallsStorable (storedCalls r)
  executing : m.phase = .executingTools → ∀ r ∈ m.response, storedCalls r = r.toolCalls

/-- The ids of a batch being executed. -/
theorem Storing.executed (hs : m.Storing) {r : Response} (hr : m.Executes r) :
    ∀ id ∈ r.toolCalls.map ToolCall.id, id ≠ "" := by
  intro id hid
  obtain ⟨call, hcall, rfl⟩ := List.mem_map.mp hid
  rw [← hs.executing hr.1 r hr.2] at hcall
  exact (hs.response r hr.2 call hcall).1

/-- A move that leaves the transcript and the response alone and executes nothing new. -/
theorem Storing.same (hs : m.Storing) (hmessages : m'.messages = m.messages)
    (htable : m'.table.ids = m.table.ids) (hresponse : ∀ r ∈ m'.response, r ∈ m.response)
    (hphase : m'.phase = .executingTools → m.phase = .executingTools) : m'.Storing where
  transcript :=
    { messages := hmessages ▸ hs.transcript.messages
      nonempty := hmessages ▸ hs.transcript.nonempty
      rows := by
        show ∀ id ∈ m'.table.ids, id ≠ ""
        rw [htable]
        exact hs.transcript.rows }
  response := fun r hr => hs.response r (hresponse r hr)
  executing := fun hp r hr => hs.executing (hphase hp) r (hresponse r hr)

/-- A move that appends storable messages. -/
theorem Storing.extend (hs : m.Storing) (new : List Message) (hnew : ∀ msg ∈ new, msg.Storable)
    (hmessages : m'.messages = m.messages ++ new) (htable : m'.table.ids ⊆ m.table.ids)
    (hresponse : m'.response = m.response)
    (hphase : m'.phase = .executingTools → m.phase = .executingTools) : m'.Storing where
  transcript :=
    have hnext := hs.transcript.append hnew
    { messages := hmessages ▸ hnext.messages
      nonempty := hmessages ▸ hnext.nonempty
      rows := fun id hid => hs.transcript.rows id (htable hid) }
  response := hresponse ▸ hs.response
  executing := fun hp => hresponse ▸ hs.executing (hphase hp)

theorem storable_text {role : Role} (hr : role ≠ .tool) (text : String) :
    ∀ msg ∈ [Message.ofText role text], msg.Storable := by
  intro msg hmsg
  rw [List.mem_singleton.mp hmsg]
  exact storable_ofText hr text

/-- Delivering a queued user turn appends a user message, or nothing. -/
theorem Storing.deliverQueued (hs : m.Storing) : m.deliverQueued.Storing := by
  unfold Machine.deliverQueued
  split
  · exact hs
  · split
    · exact hs.same rfl rfl (fun _ hr => hr) id
    · exact hs.extend _ (storable_text (by decide) _) rfl (fun _ hid => hid) rfl id

/-- The rows become answers to calls with an id. -/
theorem Storing.drainTable (hs : m.Storing) : m.drainTable.Storing := by
  refine hs.extend m.table.orderedResults ?_ rfl (by simp [Machine.drainTable]) rfl id
  intro msg hmsg
  obtain ⟨row, hrow, rfl⟩ := List.mem_map.mp hmsg
  refine storable_toolResult (hs.transcript.rows row.toolCallId ?_) _
  exact List.mem_map_of_mem (m.table.sortedRows_perm.mem_iff.mp hrow)

theorem storing_step (hr : ∀ r, h.Provides r → CallsStorable (storedCalls r)) (hstep : Step h m m')
    (hs : m.Storing) : m'.Storing := by
  cases hstep with
  | fills fs => exact hs.same rfl (World.ids_fills fs m.table) (fun _ hr => hr) id
  | wake | restart => exact hs.same rfl rfl (fun _ hr => hr) nofun
  | deliver => exact hs.deliverQueued
  | resume => exact hs.drainTable.deliverQueued.same rfl rfl (fun _ hr => hr) nofun
  | begin | stop | passCheck => exact hs.same rfl rfl (fun _ hr => hr) nofun
  | say role text placeholder hrole =>
      refine hs.extend [.spoken role text placeholder] ?_ rfl (fun _ hid => hid) rfl id
      intro msg hmsg
      rw [List.mem_singleton.mp hmsg]
      exact storable_of_text hrole rfl rfl
  | raiseBudget | reserve | resetStarted | startStep | markStarted | call | charge =>
      exact hs.same rfl rfl (fun _ hr => hr) id
  | unreported | abandon => exact hs.same rfl rfl (fun _ hr => hr) id
  | retry _ _ _ _ text =>
      exact hs.extend _ (storable_text (by decide) text) rfl (fun _ hid => hid) rfl nofun
  | enterWindDown _ _ _ _ _ fs text =>
      refine hs.extend _ (storable_text (by decide) text) rfl ?_ rfl nofun
      show (fs.foldl World.applyFill m.table).ids ⊆ m.table.ids
      rw [World.ids_fills]
      exact fun _ hid => hid
  | fold hp last hl hrole text =>
      have hlast := storable_foldSteering hrole
        (hs.transcript.messages last (List.mem_of_getLast? hl)) text
      refine ⟨⟨?_, by simp, hs.transcript.rows⟩, hs.response, hs.executing⟩
      intro msg hmsg
      obtain hmsg | hmsg := List.mem_append.mp hmsg
      · exact hs.transcript.messages msg (List.mem_of_mem_dropLast hmsg)
      · rw [List.mem_singleton.mp hmsg]
        exact hlast
  | respond hp hd r hprovides =>
      have hcalls := hr r hprovides
      refine ⟨hs.transcript.append ?_, ?_, nofun⟩
      · intro msg hmsg
        exact storable_assistantMessage hcalls (Option.mem_toList.mp hmsg)
      · intro r' hr'
        rw [← Option.some.inj hr']
        exact hcalls
  | clearResponse => exact hs.same rfl rfl nofun id
  | finish _ _ dst hd =>
      refine hs.same rfl rfl (fun _ hr => hr) ?_
      obtain rfl | rfl | rfl := hd <;> nofun
  | route hp r hresponse hcalls =>
      refine ⟨hs.transcript, hs.response, ?_⟩
      intro _ r' hr'
      obtain rfl := Option.some.inj (hresponse.symm.trans hr')
      unfold storedCalls at hcalls ⊢
      split at hcalls
      · contradiction
      · rename_i htruncated
        rw [if_neg htruncated]
  | answer r hexec _ ms hresults hids =>
      refine hs.extend ms ?_ rfl (fun _ hid => hid) rfl nofun
      intro msg hmsg
      obtain ⟨id, content, rfl⟩ := hresults msg hmsg
      have hid : some id ∈ r.toolCalls.map fun call => some call.id := by
        rw [← hids]
        exact List.mem_map_of_mem hmsg
      obtain ⟨call, hcall, heq⟩ := List.mem_map.mp hid
      rw [← Option.some.inj heq]
      exact storable_toolResult (hs.executed hexec _ (List.mem_map_of_mem hcall)) content
  | addRow r hexec row table hid _ hadd =>
      exact ⟨hs.transcript.addRow (hs.executed hexec _ hid) hadd, hs.response, hs.executing⟩
  | settleRow r hexec rowId f =>
      exact hs.same rfl (PendingEventTable.ids_update f) (fun _ hr => hr) fun hp => hp
  | drain r hexec => exact hs.drainTable.same rfl rfl (fun _ hr => hr) nofun
  | suspend => exact hs.same rfl rfl nofun nofun
  | saved _ dst hd =>
      refine hs.same rfl rfl (fun _ hr => hr) ?_
      obtain rfl | rfl := hd <;> nofun
  | abort phase hp content receipts =>
      have hopen : ∀ call ∈ (openToolCallIds m.messages).zipIdx, call.1 ≠ "" :=
        fun call hcall => openToolCallIds_ne_empty m.messages call.1 (List.fst_mem_of_mem_zipIdx hcall)
      refine ⟨storing_closeEach hopen hs.transcript, hs.response, ?_⟩
      obtain rfl | rfl | ⟨rfl, -⟩ := hp
      · nofun
      · nofun
      · exact hs.executing

/-- A move of a life without restores. -/
theorem storing_move {regime : Regime} (hno : ¬regime.restarts)
    (hr : ∀ answers, regime.env answers → ∀ n, CallsStorable (storedCalls (answers n).response))
    (hm : Move h regime m m') (hs : m.Storing) : m'.Storing := by
  cases hm with
  | step answers he hstep =>
      refine storing_step ?_ hstep hs
      rintro r ⟨n, rfl⟩
      exact hr answers he n
  | userTurn turnId content hp =>
      have hphase := userTurn_phase hp turnId content
      have hidle : (m.userTurn turnId content).phase = .executingTools →
          m.phase = .executingTools := by
        rw [hphase]
        nofun
      cases he : m.table.isEmpty with
      | true =>
          refine hs.extend [.ofText .user content] (storable_text (by decide) content) ?_
            (fun _ hid => hid) rfl hidle
          simp [Machine.userTurn, he]
      | false =>
          refine hs.same ?_ rfl (fun _ hr => hr) hidle
          simp [Machine.userTurn, he]
  | runStarted => exact hs.same rfl rfl (fun _ hr => hr) fun hp => hp
  | late i usage =>
      unfold Machine.late
      split
      · exact hs
      · dsimp only
        split <;> exact hs.same rfl rfl (fun _ hr => hr) fun hp => hp
  | restart hr => exact absurd hr hno

end Machine

/-! ## every run -/

/-- What is promised of the history of a session that is at `w`. -/
structure Persistable (w : World) : Prop where
  valid : validateMessages w.state.messages = .ok ()
  /-- Every autosave delta is accepted. -/
  accepted : ∀ (files : SavedFiles) (sequence replaceFrom : Nat), 1 ≤ sequence → ∃ files',
    files.appendSnapshotDelta sequence replaceFrom (w.state.messages.drop replaceFrom) = .ok files'
  /-- What is saved is loaded as it was. -/
  loaded : ∀ (files : SavedFiles) (systemPrompt : String),
    (files.save w.state.messages).loadSnapshot systemPrompt = .ok w.state.messages

/-- The responses of the environment store calls with an id and a name. -/
def ProvidesStorable (answers : Nat → Answer) : Prop :=
  ∀ n, CallsStorable (storedCalls (answers n).response)

/-- **Every history is persistable** while every response stores only calls that
have an id and a name: whatever is done with the session, and wherever its
process dies. -/
theorem history_persistable {h : Host} {py : Python} {seed : List Message} {w : World}
    {alive : Bool} (hseed : ∀ m ∈ seed, m.Storable) (hne : seed ≠ [])
    (hl : Lives h py { env := ProvidesStorable, restarts := False } (.fresh h seed) alive w) :
    Persistable w := by
  have hfresh : (World.fresh h seed).machine.Storing :=
    ⟨⟨hseed, hne, nofun⟩, nofun, nofun⟩
  have hidle : (World.fresh h seed).machine.phase.Rests := (by decide : SessionPhase.idle.Rests)
  have hlived := hl.lived hidle fun _ => rfl
  have hmove : ∀ m m', Move h { env := ProvidesStorable, restarts := False } m m' →
      m.Storing → m'.Storing :=
    fun _ _ => Machine.storing_move id fun _ he => he
  have hs := invariant_of_run hmove hlived.moves hfresh
  exact ⟨validateMessages_storable hs.transcript.messages,
    fun files _ replaceFrom hsequence =>
      appendSnapshotDelta_storable hs.transcript.messages files hsequence replaceFrom,
    loadSnapshot_save hs.transcript.messages hs.transcript.nonempty⟩

theorem storable_systemPrompt : ∀ m ∈ [Message.ofText .system ""], m.Storable :=
  Machine.storable_text (by decide) ""

theorem history_persistable_sample : Persistable World.woundDown := by
  have hmixing : ∀ call ∈ storedCalls (mixing 0).response,
      call.id ≠ "" ∧ isBlank call.name = false := by decide
  have hclosing : ∀ call ∈ storedCalls (closing 0).response,
      call.id ≠ "" ∧ isBlank call.name = false := by decide
  exact history_persistable storable_systemPrompt (List.cons_ne_nil _ _)
    (World.woundDown_lives (fun _ => hmixing) (fun _ => hclosing) trivial trivial)

/-! ## a batch without an id -/

/-- A provider that leaves the id of its call empty. -/
def unnamed (_ : Nat) : Answer where
  response := {
    toolCalls := [⟨"", "read_file", "{}"⟩]
    usage := { inputTokens := .int 3, totalTokens := .int 5 } }

/-- How the run of `unnamed` ends, and the session after it: the fuel stops it where
the batch is about to be executed. -/
def World.unnamedRun : Except Exn Unit × World :=
  ((SessionOp.runLoop unnamed 4).perform (.sample unnamed)).run
    (.fresh (.sample unnamed) [.ofText .system ""])

/-- The message that makes a call without an id is in the history before the batch
is rejected, and it stays there: the store does not take it. -/
theorem history_not_persistable : ¬∀ (h : Host) (py : Python) (seed : List Message) (w : World)
    (alive : Bool), (∀ m ∈ seed, m.Storable) → seed ≠ [] →
      Lives h py { restarts := False } (.fresh h seed) alive w → Persistable w := by
  intro hclaim
  have hlife : Lives (.sample unnamed) .sample { restarts := False }
      (.fresh (.sample unnamed) [.ofText .system ""]) (World.unnamedRun.1 ≠ .error .crash)
      World.unnamedRun.2 :=
    .perform (.runLoop unnamed 4) .start ⟨trivial, trivial⟩ (Prod.eta World.unnamedRun).symm
  have hvalid := (hclaim _ _ _ _ _ storable_systemPrompt (List.cons_ne_nil _ _) hlife).valid
  have hrefused : (validateMessages World.unnamedRun.2.state.messages).isOk = false := by
    decide +kernel
  rw [hvalid] at hrefused
  exact Bool.noConfusion hrefused

end OpenCollab
