import OpenCollab.Session.Lineage

/-!
# OpenCollab.Session.Integrity

The tool exchanges of a session stay intact.  `Machine.Kept` says for each phase
which results the history can still miss: none while the driver is between two
steps, the whole last batch while it is handled, executed or waited for.

* `kept_step` — every move of the driver keeps it;
* `exchanges_intact` — so a session at rest is `Intact`, whatever was done with
  it before.
-/

namespace OpenCollab

open Lib

namespace Machine

/-- The batch of the response being handled. -/
def batch (m : Machine) : List ToolCall := m.response.elim [] storedCalls

/-- **The exchanges of a running session**, phase by phase. -/
def Kept (m : Machine) : Prop :=
  match m.phase with
  | .idle | .awaitingEvents | .done | .stopped | .error => Intact m.messages m.table
  | .precheck | .callingLlm | .autosaving => Closed m.messages ∧ m.table.isEmpty = true
  | .handlingResponse =>
      m.table.isEmpty = true ∧ (m.batch = [] → Closed m.messages) ∧
        (m.batch ≠ [] → Named m.batch ∧ Led m.batch m.messages)
  | .executingTools => ∃ r, m.response = some r ∧ Named r.toolCalls ∧ Led r.toolCalls m.messages ∧
      m.table.keys ⊆ batchKeys r.toolCalls

variable {h : Host} {m m' : Machine}

/-- A phase in which the driver waits for nothing. -/
def Sealed (m : Machine) : Prop := Closed m.messages ∧ m.table.isEmpty = true

theorem Sealed.intact (hs : m.Sealed) : Intact m.messages m.table := .inl hs

theorem kept_resting {p : SessionPhase} (hp : m.phase = p)
    (hr : p ∈ [.idle, .awaitingEvents, .done, .stopped, .error]) :
    m.Kept ↔ Intact m.messages m.table := by
  unfold Kept
  rw [hp]
  cases p <;> first | rfl | exact absurd hr (by decide)

theorem kept_sealed {p : SessionPhase} (hp : m.phase = p)
    (hr : p ∈ [.precheck, .callingLlm, .autosaving]) : m.Kept ↔ m.Sealed := by
  unfold Kept
  rw [hp]
  cases p <;> first | rfl | exact absurd hr (by decide)

theorem kept_executing (hp : m.phase = .executingTools) :
    m.Kept ↔ ∃ r, m.response = some r ∧ Named r.toolCalls ∧ Led r.toolCalls m.messages ∧
      m.table.keys ⊆ batchKeys r.toolCalls := by
  unfold Kept
  rw [hp]

theorem kept_handling (hp : m.phase = .handlingResponse) :
    m.Kept ↔ m.table.isEmpty = true ∧ (m.batch = [] → Closed m.messages) ∧
      (m.batch ≠ [] → Named m.batch ∧ Led m.batch m.messages) := by
  unfold Kept
  rw [hp]

/-- Where the driver is quiet, no exchange is open. -/
theorem Kept.sealed_of_quiet (hk : m.Kept) (hq : m.Quiet) : m.Sealed := by
  obtain hp | hp | hp | ⟨hp, hb⟩ := hq
  · exact (kept_sealed hp (by decide)).mp hk
  · exact (kept_sealed hp (by decide)).mp hk
  · exact (kept_sealed hp (by decide)).mp hk
  · obtain ⟨he, hc, -⟩ := (kept_handling hp).mp hk
    refine ⟨hc ?_, he⟩
    rw [batch]
    cases hr : m.response with
    | none => rfl
    | some r => exact hb r (by simp [hr])

/-- A sealed machine may be in any phase without a batch of its own. -/
theorem Sealed.kept (hs : m.Sealed) (hp : m.phase ≠ .executingTools)
    (hb : m.phase = .handlingResponse → m.batch = []) : m.Kept := by
  unfold Kept
  cases hphase : m.phase with
  | executingTools => exact absurd hphase hp
  | handlingResponse => exact ⟨hs.2, fun _ => hs.1, fun hne => absurd (hb hphase) hne⟩
  | precheck | callingLlm | autosaving => exact hs
  | idle | awaitingEvents | done | stopped | error => exact .inl hs

/-- An intact history without rows is closed. -/
theorem sealed_of_intact {ms : List Message} {table : PendingEventTable} (hi : Intact ms table)
    (he : table.isEmpty = true) : Closed ms := by
  obtain ⟨hc, -⟩ | ⟨calls, -, ⟨_, _, _, _, _, _, hne⟩, hk⟩ := hi
  · exact hc
  · rw [PendingEventTable.isEmpty_iff.mp he] at hk
    have hempty := hk.nil_eq
    rw [batchKeys, eq_comm, List.map_eq_nil_iff] at hempty
    exact absurd hempty hne

theorem closed_append_user {ms : List Message} (hc : Closed ms) (content : String) :
    Closed (ms ++ [.ofText .user content]) :=
  hc.say (by simp) (by simp)

/-- A queued turn that begins leaves a closed history closed. -/
theorem closed_deliverQueued (hc : Closed m.messages) : Closed m.deliverQueued.messages := by
  unfold deliverQueued
  split
  · exact hc
  · split
    · exact hc
    · exact closed_append_user hc _

/-- The rows of a batch are filled and settled in their places. -/
theorem kept_rows {table : PendingEventTable} (hk : m.Kept) (ht : table.keys = m.table.keys) :
    Kept { m with table } := by
  have he : table.isEmpty = m.table.isEmpty := by
    have hl := congrArg List.isEmpty ht
    simpa [PendingEventTable.keys, PendingEventTable.isEmpty] using hl
  unfold Kept at hk ⊢
  dsimp only
  cases hphase : m.phase with
  | executingTools =>
      rw [hphase] at hk
      obtain ⟨r, hr, hn, hl, hsub⟩ := hk
      exact ⟨r, hr, hn, hl, ht ▸ hsub⟩
  | handlingResponse =>
      rw [hphase] at hk
      exact ⟨he ▸ hk.1, hk.2⟩
  | precheck | callingLlm | autosaving =>
      rw [hphase] at hk
      exact ⟨hk.1, he ▸ hk.2⟩
  | idle | awaitingEvents | done | stopped | error =>
      rw [hphase] at hk
      obtain ⟨hc, hempty⟩ | ⟨calls, hn, hl, hkeys⟩ := hk
      · exact .inl ⟨hc, he ▸ hempty⟩
      · exact .inr ⟨calls, hn, hl, ht ▸ hkeys⟩

/-- An interruption leaves the exchanges intact. -/
theorem intact_close (hk : m.Kept) (content : String) (receipts : Receipts) :
    Intact (m.close content (some m.table.ids) receipts).messages
      (m.close content (some m.table.ids) receipts).table := by
  have hsealed : m.Sealed → Intact (m.close content (some m.table.ids) receipts).messages
      (m.close content (some m.table.ids) receipts).table := by
    intro hs
    unfold close
    rw [hs.intact.close]
    exact hs.intact
  have hresting : Intact m.messages m.table →
      Intact (m.close content (some m.table.ids) receipts).messages
        (m.close content (some m.table.ids) receipts).table := by
    intro hi
    unfold close
    rw [hi.close]
    exact hi
  unfold Kept at hk
  cases hphase : m.phase with
  | executingTools =>
      rw [hphase] at hk
      obtain ⟨r, -, hn, hl, hsub⟩ := hk
      exact closeOpenCalls_led hl hn hsub
  | handlingResponse =>
      rw [hphase] at hk
      obtain ⟨he, hc, hl⟩ := hk
      by_cases hb : m.batch = []
      · exact hsealed ⟨hc hb, he⟩
      · obtain ⟨hn, hl⟩ := hl hb
        refine closeOpenCalls_led hl hn ?_
        rw [PendingEventTable.isEmpty_iff.mp he]
        exact List.nil_subset _
  | precheck | callingLlm | autosaving =>
      rw [hphase] at hk
      exact hsealed hk
  | idle | awaitingEvents | done | stopped | error =>
      rw [hphase] at hk
      exact hresting hk

/-- The response joins the history. -/
theorem kept_respond {r : Response} (hs : m.Sealed) (hn : Named (storedCalls r)) :
    Kept ({ m with messages := m.messages ++ (assistantMessage? r).toList, response := some r }.go
      .handlingResponse) := by
  refine (kept_handling rfl).mpr ⟨hs.2, fun hb => ?_, fun hb => ⟨hn, ?_⟩⟩
  · have hb : storedCalls r = [] := hb
    show Closed (m.messages ++ (assistantMessage? r).toList)
    unfold assistantMessage?
    split
    · cases r.visible? with
      | none => simpa using hs.1
      | some text => exact hs.1.say (by simp) (by simp)
    · rename_i htr
      have hcalls : r.toolCalls = [] := by rwa [storedCalls, if_neg htr] at hb
      split
      · simpa using hs.1
      · exact hs.1.say (by simp [Message.opensExchange, hcalls]) rfl
  · have hb : storedCalls r ≠ [] := hb
    show Led (storedCalls r) (m.messages ++ (assistantMessage? r).toList)
    have htr : ¬ r.isTruncated = true := by
      intro htr
      rw [storedCalls, if_pos htr] at hb
      exact hb rfl
    have hcalls : storedCalls r = r.toolCalls := if_neg htr
    rw [hcalls] at hb ⊢
    have hempty : (r.visible?.isNone && r.toolCalls.isEmpty) = false := by simp [hb]
    rw [assistantMessage?, if_neg htr, hempty, if_neg Bool.false_ne_true]
    exact ⟨m.messages, _, rfl, hs.1, rfl, rfl, hb⟩

/-- **Every move of the driver** keeps the exchanges. -/
theorem kept_step (hr : ∀ r, h.Provides r → Named (storedCalls r)) (hs : Step h m m')
    (hk : m.Kept) : m'.Kept := by
  have hsealed : ∀ {p : SessionPhase}, m.phase = p → p ∈ [.precheck, .callingLlm, .autosaving] →
      m.Sealed := fun hp hmem => (kept_sealed hp hmem).mp hk
  have hintact : ∀ {p : SessionPhase}, m.phase = p →
      p ∈ [.idle, .awaitingEvents, .done, .stopped, .error] → Intact m.messages m.table :=
    fun hp hmem => (kept_resting hp hmem).mp hk
  have hresting : m.phase = .idle ∨ m.phase.isTerminal = true → Intact m.messages m.table := by
    rintro (hp | hp)
    · exact hintact hp (by decide)
    · refine hintact rfl ?_
      revert hp
      generalize m.phase = phase
      cases phase <;> decide
  have hsame : ∀ {m' : Machine}, m'.messages = m.messages → m'.table = m.table →
      m'.phase = m.phase → m'.response = m.response → m'.Kept := by
    intro m' hms ht hp hres
    unfold Kept batch
    rw [hms, ht, hp, hres]
    exact hk
  cases hs with
  | fills fs => exact kept_rows hk (World.keys_fills fs m.table)
  | wake hp => exact (kept_resting (p := .awaitingEvents) rfl (by decide)).mpr (hresting hp)
  | restart hp => exact (kept_resting (p := .idle) rfl (by decide)).mpr (hresting (.inr hp))
  | deliver hp ht =>
      have hc := sealed_of_intact (hintact hp (by decide)) ht
      obtain ⟨hphase, htable, -⟩ := m.deliverQueued_eq
      refine (kept_resting (hphase.trans hp) (by decide)).mpr (.inl ⟨closed_deliverQueued hc, ?_⟩)
      rw [htable]
      exact ht
  | resume hp ht =>
      refine (kept_sealed (p := .autosaving) rfl (by decide)).mpr ⟨?_, ?_⟩
      · refine closed_deliverQueued (m := m.drainTable) ?_
        obtain ⟨-, hempty⟩ | ⟨calls, hn, hl, hkeys⟩ := hintact hp (by decide)
        · rw [PendingEventTable.isComplete, show m.table.rows.isEmpty = true from hempty] at ht
          contradiction
        · exact hl.answer hn m.table.orderedResults_tools (orderedResults_of_keys hn hkeys)
      · show m.drainTable.deliverQueued.table.isEmpty = true
        rw [m.drainTable.deliverQueued_eq.2.1]
        rfl
  | begin hp ht =>
      exact (kept_sealed (p := .precheck) rfl (by decide)).mpr
        ⟨sealed_of_intact (hintact hp (by decide)) ht, ht⟩
  | say role text placeholder hrole hq =>
      have hq' : (m.say (.spoken role text placeholder)).Quiet := hq
      refine Sealed.kept ⟨?_, (hk.sealed_of_quiet hq).2⟩ ?_ ?_
      · exact (hk.sealed_of_quiet hq).1.say (by simp [Message.opensExchange, Message.spoken,
          Message.ofText]) (by simp [Message.isTool, Message.spoken, Message.ofText, hrole])
      · obtain hp | hp | hp | ⟨hp, -⟩ := hq <;> simp [say, hp]
      · intro hp
        obtain hp' | hp' | hp' | ⟨-, hb⟩ := hq
        · exact absurd (hp'.symm.trans hp) (by decide)
        · exact absurd (hp'.symm.trans hp) (by decide)
        · exact absurd (hp'.symm.trans hp) (by decide)
        · rw [batch]
          cases hres : m.response with
          | none => rw [say, hres]; rfl
          | some r => rw [say, hres]; exact hb r (by simp [hres])
  | stop hp =>
      refine (kept_resting (p := .stopped) rfl (by decide)).mpr ?_
      obtain hp | hp := hp <;> exact (hsealed hp (by decide)).intact
  | raiseBudget => exact hsame rfl rfl rfl rfl
  | passCheck hp =>
      exact (kept_sealed (p := .callingLlm) rfl (by decide)).mpr (hsealed hp (by decide))
  | retry hp =>
      have hseal := hsealed hp (by decide)
      exact (kept_sealed (p := .callingLlm) rfl (by decide)).mpr
        ⟨hseal.1.say (by simp) (by simp), hseal.2⟩
  | reserve => exact hsame rfl rfl rfl rfl
  | enterWindDown hp _ _ _ _ fs =>
      have hseal := hsealed hp (by decide)
      exact (kept_sealed (p := .callingLlm) rfl (by decide)).mpr
        ⟨hseal.1.say (by simp) (by simp), World.isEmpty_fills fs hseal.2⟩
  | resetStarted => exact hsame rfl rfl rfl rfl
  | startStep => exact hsame rfl rfl rfl rfl
  | markStarted => exact hsame rfl rfl rfl rfl
  | fold hp last hl hrole text =>
      have hseal := hsealed hp (by decide)
      have hms : m.messages = m.messages.dropLast ++ [last] :=
        (List.dropLast_append_getLast? last hl).symm
      have hlast : last.isTool = false := by simp [Message.isTool, hrole]
      have hc : Closed m.messages.dropLast :=
        Closed.of_append_cons hlast (show Closed (m.messages.dropLast ++ last :: []) from hms ▸ hseal.1)
      have hc' : Closed (m.messages.dropLast ++ [foldSteering last text]) := hc.say ?_ ?_
      · exact (kept_sealed (m := { m with
            messages := m.messages.dropLast ++ [foldSteering last text] }) hp (by decide)).mpr ⟨hc', hseal.2⟩
      · simp [Message.opensExchange, foldSteering, hrole]
      · simp [Message.isTool, foldSteering, hrole]
  | call => exact hsame rfl rfl rfl rfl
  | charge => exact hsame rfl rfl rfl rfl
  | unreported => exact hsame rfl rfl rfl rfl
  | abandon => exact hsame rfl rfl rfl rfl
  | respond hp _ r hprov => exact kept_respond (hsealed hp (by decide)) (hr r hprov)
  | clearResponse hq =>
      have hseal := hk.sealed_of_quiet hq
      refine Sealed.kept hseal ?_ fun _ => rfl
      obtain hp | hp | hp | ⟨hp, -⟩ := hq <;> simp [hp]
  | finish hp hq dst hd =>
      refine Sealed.kept (m := m.go dst) (hk.sealed_of_quiet hq) ?_ ?_ <;>
        obtain rfl | rfl | rfl := hd <;> simp [go]
  | route hp r hres hc =>
      obtain ⟨he, -, hl⟩ := (kept_handling hp).mp hk
      have hb : m.batch = storedCalls r := by rw [batch, hres]; rfl
      have hcalls : storedCalls r = r.toolCalls := by
        unfold storedCalls at hc ⊢
        split
        · rename_i htr
          rw [if_pos htr] at hc
          exact absurd rfl hc
        · rfl
      rw [hb, hcalls] at hl
      obtain ⟨hn, hl⟩ := hl (hcalls ▸ hc)
      refine (kept_executing rfl).mpr ⟨r, hres, hn, hl, ?_⟩
      show m.table.keys ⊆ _
      rw [PendingEventTable.isEmpty_iff.mp he]
      exact List.nil_subset _
  | answer r hex ht ms hm hi =>
      obtain ⟨r', hres, hn, hl, -⟩ := (kept_executing hex.1).mp hk
      obtain rfl : r' = r := Option.some.inj (hres.symm.trans hex.2)
      refine (kept_sealed (p := .autosaving) rfl (by decide)).mpr ⟨hl.answer hn ?_ hi, ht⟩
      intro msg hmsg
      obtain ⟨id, content, rfl⟩ := hm msg hmsg
      rfl
  | addRow r hex row table hi ho ha =>
      obtain ⟨r', hres, hn, hl, hsub⟩ := (kept_executing hex.1).mp hk
      obtain rfl : r' = r := Option.some.inj (hres.symm.trans hex.2)
      refine (kept_executing (m := { m with table }) hex.1).mpr ⟨r', hres, hn, hl, ?_⟩
      show table.keys ⊆ _
      rw [PendingEventTable.keys_add ha, List.append_subset]
      refine ⟨hsub, ?_⟩
      rw [List.cons_subset]
      exact ⟨mem_batchKeys.mpr ⟨hi, ho⟩, List.nil_subset _⟩
  | settleRow r hex id f hf => exact kept_rows hk (PendingEventTable.keys_update hf)
  | drain r hex hi =>
      obtain ⟨r', hres, hn, hl, hsub⟩ := (kept_executing hex.1).mp hk
      obtain rfl : r' = r := Option.some.inj (hres.symm.trans hex.2)
      have hkeys := keys_perm_of_subset hn hsub hi
      exact (kept_sealed (p := .autosaving) rfl (by decide)).mpr
        ⟨hl.answer hn m.table.orderedResults_tools (orderedResults_of_keys hn hkeys), rfl⟩
  | suspend r hex hi =>
      obtain ⟨r', hres, hn, hl, hsub⟩ := (kept_executing hex.1).mp hk
      obtain rfl : r' = r := Option.some.inj (hres.symm.trans hex.2)
      exact (kept_resting (p := .awaitingEvents) rfl (by decide)).mpr
        (.inr ⟨r'.toolCalls, hn, hl, keys_perm_of_subset hn hsub hi⟩)
  | saved hp dst hd =>
      have hseal := hsealed hp (by decide)
      refine Sealed.kept (m := m.go dst) hseal ?_ ?_ <;> obtain rfl | rfl := hd <;> simp [go]
  | abort phase hp content receipts =>
      have hclose := intact_close hk content receipts
      obtain rfl | rfl | ⟨rfl, hrests⟩ := hp
      · exact (kept_resting (p := .stopped) rfl (by decide)).mpr hclose
      · exact (kept_resting (p := .error) rfl (by decide)).mpr hclose
      · cases hphase : m.phase with
        | precheck | callingLlm =>
            have hseal := hsealed hphase (by decide)
            have he := close_isEmpty content (some m.table.ids) receipts hseal.2
            refine Sealed.kept ⟨sealed_of_intact hclose he, he⟩ ?_ ?_ <;> simp [close]
        | idle | awaitingEvents | done | stopped | error =>
            exact hclose
        | handlingResponse | executingTools | autosaving =>
            rw [hphase] at hrests
            exact absurd hrests (by decide)

end Machine

/-- The exchanges stay intact over a life without restores. -/
theorem kept_move {h : Host} {regime : Regime} {m m' : Machine} (hnone : ¬ regime.restarts)
    (hr : ∀ answers, regime.env answers → ∀ n, Named (storedCalls (answers n).response))
    (hm : Move h regime m m') (hk : m.Kept) : m'.Kept := by
  cases hm with
  | step answers he hs =>
      refine Machine.kept_step ?_ hs hk
      rintro r ⟨n, rfl⟩
      exact hr answers he n
  | userTurn turnId content hp =>
      have hi : Intact m.messages m.table := by
        obtain hp | hp := hp
        · exact (Machine.kept_resting hp (by decide)).mp hk
        · refine (Machine.kept_resting rfl ?_).mp hk
          revert hp
          generalize m.phase = phase
          cases phase <;> decide
      refine (Machine.kept_resting (userTurn_phase hp turnId content) (by decide)).mpr ?_
      show Intact (if m.table.isEmpty then m.messages ++ [.ofText .user content] else m.messages)
        m.table
      split
      · rename_i he
        exact .inl ⟨Machine.closed_append_user (Machine.sealed_of_intact hi he) content, he⟩
      · exact hi
  | runStarted => exact hk
  | late i usage =>
      unfold Machine.late
      split
      · exact hk
      · dsimp only
        split <;> exact hk
  | restart hregime => exact absurd hregime hnone

/-- A history of messages without tool calls is closed. -/
theorem closed_of_spoken {ms : List Message}
    (hs : ∀ m ∈ ms, m.toolCalls = [] ∧ m.isTool = false) : Closed ms := by
  induction ms using List.reverseRecOn with
  | nil => exact closed_nil
  | append_singleton ms m ih =>
      obtain ⟨hcalls, ht⟩ := hs m (by simp)
      refine (ih fun m' hm => hs m' (List.mem_append_left _ hm)).say ?_ ht
      simp [Message.opensExchange, hcalls]

/-- **Tool-exchange integrity.**  Whatever is done with a session, as long as
each batch of calls has distinct non-empty ids (which `preflight_tool_batch`
demands, `named_of_accepted`): when no operation is under way, every exchange of
the history is complete and in call order, except that the last one may have
none of its results there, and then one row for each call. -/
theorem exchanges_intact {h : Host} {py : Python} {seed : List Message} {w : World}
    (hseed : ∀ m ∈ seed, m.toolCalls = [] ∧ m.isTool = false)
    (hl : Lives h py {
      env := fun answers => ∀ n, Named (storedCalls (answers n).response)
      restarts := False } (.fresh h seed) true w) :
    Intact w.state.messages w.state.pendingEvents := by
  have hfresh : (World.fresh h seed).machine.Kept := .inl ⟨closed_of_spoken hseed, rfl⟩
  have hidle : (World.fresh h seed).machine.phase.Rests := (by decide : SessionPhase.idle.Rests)
  have hlived := hl.lived hidle fun _ => rfl
  have hk : w.machine.Kept :=
    invariant_of_run (fun _ _ => kept_move id fun _ he => he) hlived.moves hfresh
  have hrests := hlived.rests rfl
  cases hphase : w.machine.phase with
  | precheck | callingLlm => exact .inl ((Machine.kept_sealed hphase (by decide)).mp hk)
  | idle | awaitingEvents | done | stopped | error =>
      exact (Machine.kept_resting hphase (by decide)).mp hk
  | handlingResponse | executingTools | autosaving =>
      rw [hphase] at hrests
      exact absurd hrests (by decide)

/-- A batch with an immediate and a deferred call, whose rows wait for the child agent, and the
session behind it. -/
theorem exchanges_intact_sample :
    Intact World.suspended.state.messages World.suspended.state.pendingEvents ∧
      Intact World.woundDown.state.messages World.woundDown.state.pendingEvents := by
  have hmixing : Named (storedCalls (mixing 0).response) := ⟨by decide, by decide⟩
  have hclosing : Named (storedCalls (closing 0).response) := ⟨by decide, by decide⟩
  have hseed : ∀ m ∈ [Message.ofText .system ""], m.toolCalls = [] ∧ m.isTool = false := by
    simp [Message.ofText, Message.isTool]
  exact ⟨exchanges_intact hseed (World.suspended_lives (fun _ => hmixing) trivial),
    exchanges_intact hseed 
      (World.woundDown_lives (fun _ => hmixing) (fun _ => hclosing) trivial trivial)⟩

end OpenCollab
