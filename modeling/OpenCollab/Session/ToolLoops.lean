import OpenCollab.Lib.Dict
import OpenCollab.Session.Lineage

/-!
# OpenCollab.Session.ToolLoops

The record of repeated calls at work: a dispatch is reserved under its call id,
finished by the same id, and the record is pruned, bounded and restored in
between.  An entry with an unresolved owner stands for an execution that may have
happened, so none of the four paths that drop entries may drop it.

* `reserve_spec`, `finish_spec` — what the two calls do to the record;
* `step_held`, `step_protects` — what every operation keeps: a well-formed record
  stays one, and an owned entry stays as it is until its owner finishes it;
* `loops_kept` — what follows for every sequence of operations.
-/

namespace OpenCollab

open Lib

/-! ## the operations -/

/-- The facts of one execution that the record reads; `None` is unknown. -/
structure ToolFacts where
  timedOut : Option Bool := none
  exitCode : Option Int := none
  writeCompleted : Option Bool := none
  contentChanged : Option Bool := none
deriving DecidableEq, Inhabited

/-- What `reserve` returns: an ordinary dispatch (`None`), an exceptional one with
its reason, or a rejection. -/
inductive Permit where
  | ordinary
  | validation
  | timeoutRecovery
  | validationAndTimeoutRecovery
  | blocked
  | inflight
  | capacity
deriving DecidableEq, Inhabited

/-- The arguments of `reserve`. -/
structure Reservation where
  key : String
  recentSame : Int
  limit : Int
  workspaceSensitive : Bool
  timeoutControl : Bool := false
  timeout : Json := .null
  toolCallId : Option String := none
  activeKeys : Option (List String) := none

/-- The arguments of `finish`. -/
structure Completion where
  key : String
  facts : ToolFacts
  resultKey : Option String := none
  toolCallId : Option String := none
  workspaceSensitive : Bool := false
  completed : Bool := false

/-- The owner a call is recorded under; `_ANONYMOUS_CALL` without an id. -/
def ownerOf (toolCallId : Option String) : String := toolCallId.getD "<anonymous>"

namespace OperationState

/-- No execution of the operation is unresolved. -/
def isIdle (o : OperationState) : Bool := o.inflightToolCallId.isNone

/-- The exit kind a completion is recorded with. -/
def exitKindOf (c : Completion) : ExitKind :=
  if c.facts.timedOut = some true then .timeout
  else match c.facts.exitCode with
    | some code => if code = 0 then .completed else .failed
    | none =>
        if c.facts.writeCompleted = some false then .failed
        else if c.facts.writeCompleted = some true || c.completed then .completed
        else .unknown

end OperationState

namespace LoopState

/-- `prune`. -/
def prune (s : LoopState) (activeKeys : List String) : LoopState :=
  { s with operations := s.operations.filter fun e => activeKeys.contains e.1 || !e.2.isIdle }

/-- A full record gives up its first idle entry that is not active; `none`: there
is no such entry. -/
def makeRoom (s : LoopState) (activeKeys : Option (List String)) : Option LoopState :=
  if s.operations.length < maxOperations then some s
  else (s.operations.find? fun e =>
      e.2.isIdle && activeKeys.all fun active => !active.contains e.1).map fun evict =>
    { s with operations := s.operations.eraseP fun e => e.1 = evict.1 }

/-- The first half of `reserve`: the entry the dispatch is reserved in. -/
def entryFor (s : LoopState) (r : Reservation) : Except Permit (LoopState × OperationState) :=
  match s.operations.lookup r.key with
  | some operation => if operation.isIdle then .ok (s, operation) else .error .inflight
  | none =>
      match s.makeRoom r.activeKeys with
      | none => .error .capacity
      | some s =>
          let initialEditSeq := if r.recentSame ≤ 1 then s.editSeq else 0
          let operation : OperationState := {
            lastExecutedEditSeq := initialEditSeq
            validationReservedEditSeq := initialEditSeq }
          .ok ({ s with operations := setOperation r.key operation s.operations }, operation)

/-- `reserve`; `longer` is `>` on timeouts. -/
def reserve (py : Python) (longer : Json → Json → Bool) (s : LoopState) (r : Reservation) :
    LoopState × Permit :=
  match s.entryFor r with
  | .error permit => (s, permit)
  | .ok (s, operation) =>
      let wait := if r.timeoutControl then py.positiveTimeout r.timeout else none
      let validation := r.workspaceSensitive &&
        decide (max operation.lastExecutedEditSeq operation.validationReservedEditSeq < s.editSeq)
      let recovery := wait.any fun wait =>
        decide (operation.lastExitKind = .timeout) && longer wait operation.maxAttemptedTimeout &&
          !operation.timeoutRecoveryUsed
      let exceptional := decide (r.limit ≤ r.recentSame)
      if exceptional && !(validation || recovery) then (s, .blocked)
      else
        let reserved : OperationState := { operation with
          inflightToolCallId := some (ownerOf r.toolCallId)
          validationReservedEditSeq := s.editSeq
          -- `max(a, b)` is `a` unless `b` is greater.
          maxAttemptedTimeout := match wait with
            | some wait =>
                if longer wait operation.maxAttemptedTimeout then wait
                else operation.maxAttemptedTimeout
            | none => operation.maxAttemptedTimeout
          timeoutRecoveryUsed := operation.timeoutRecoveryUsed || (exceptional && recovery) }
        ({ s with operations := setOperation r.key reserved s.operations },
          if !exceptional then .ordinary
          else if validation && recovery then .validationAndTimeoutRecovery
          else if validation then .validation else .timeoutRecovery)

/-- `finish`, with its progress signal. -/
def finish (s : LoopState) (c : Completion) : LoopState × Bool :=
  match s.operations.lookup c.key with
  | none => (s, false)
  | some operation =>
      if operation.inflightToolCallId ≠ some (ownerOf c.toolCallId) then (s, false)
      else
        let exitKind := OperationState.exitKindOf c
        let changed := decide (c.facts.contentChanged = some true)
        let validatedEdit := c.workspaceSensitive &&
          decide (operation.lastExecutedEditSeq < s.editSeq) && decide (exitKind = .completed)
        let recoveredExecution :=
          (decide (operation.lastExitKind = .timeout) || decide (operation.lastExitKind = .failed)) &&
            decide (exitKind = .completed)
        let editSeq := if changed then s.editSeq + 1 else s.editSeq
        let finished : OperationState := { operation with
          lastExecutedEditSeq := editSeq
          validationReservedEditSeq := max operation.validationReservedEditSeq editSeq
          lastExitKind := exitKind
          lastResultKey := c.resultKey
          inflightToolCallId := none }
        ({ s with editSeq, operations := setOperation c.key finished s.operations },
          changed || validatedEdit || recoveredExecution)

/-- The keys of a snapshot's `operations`. -/
def snapshotKeys (raw : Json) : List String :=
  match raw.get "operations" with
  | .obj items => items.map Prod.fst
  | _ => []

/-- `from_dict` with its optional `active_keys`: without them every key counts. -/
def restore (py : Python) (raw : Json) (legacyBlockedCalls : Nat)
    (activeKeys : Option (List String)) : Option LoopState :=
  fromDict py raw legacyBlockedCalls (activeKeys.getD (snapshotKeys raw))

end LoopState

/-- Where `recent[:-window]` ends and `recent[-window:]` begins in a list of
`length` entries that is longer than `window`. -/
def windowStart (length : Nat) (window : Int) : Nat :=
  if 0 < window then length - window.toNat else (-window).toNat

namespace TurnEnforcementState

/-- One expired key of `remember_tool_call_hash`. -/
def expire (recent : List String) (operations : List (String × OperationState)) (key : String) :
    List (String × OperationState) :=
  if recent.contains key then operations
  else operations.filter fun e => !(decide (e.1 = key) && e.2.isIdle)

/-- `remember_tool_call_hash`. -/
def rememberToolCallHash (t : TurnEnforcementState) (callHash : String) (maxWindow : Option Int) :
    TurnEnforcementState :=
  let recent := t.recentCallHashes ++ [callHash]
  match maxWindow with
  | none => { t with recentCallHashes := recent }
  | some window =>
      if (recent.length : Int) ≤ window then { t with recentCallHashes := recent }
      else
        let start := windowStart recent.length window
        { t with
          recentCallHashes := recent.drop start
          loopState := { t.loopState with
            operations := (recent.take start).foldl (expire (recent.drop start))
              t.loopState.operations } }

end TurnEnforcementState

/-- One operation on the record of a turn.  A clone shares no mutable part with its
origin, so it is the same value. -/
inductive LoopOp where
  | reserve (r : Reservation)
  | finish (c : Completion)
  | prune (activeKeys : List String)
  | clone
  | remember (callHash : String) (maxWindow : Option Int)
  | fromDict (raw : Json) (legacyBlockedCalls : Nat) (activeKeys : Option (List String))

/-- Perform one operation; `none` is the `ValueError` of `from_dict`. -/
def LoopOp.perform (py : Python) (longer : Json → Json → Bool) (t : TurnEnforcementState) :
    LoopOp → Option TurnEnforcementState
  | reserve r => some { t with loopState := (t.loopState.reserve py longer r).1 }
  | finish c => some { t with loopState := (t.loopState.finish c).1 }
  | prune activeKeys => some { t with loopState := t.loopState.prune activeKeys }
  | clone => some t
  | remember callHash maxWindow => some (t.rememberToolCallHash callHash maxWindow)
  | fromDict raw legacy activeKeys =>
      (LoopState.restore py raw legacy activeKeys).map fun loopState => { t with loopState }

/-- Perform a sequence of operations. -/
def LoopOp.performAll (py : Python) (longer : Json → Json → Bool) (t : TurnEnforcementState)
    (ops : List LoopOp) : Option TurnEnforcementState :=
  ops.foldlM (perform py longer) t

/-! ## entries -/

variable {py : Python} {longer : Json → Json → Bool} {s s' : LoopState}
  {operations operations' : List (String × OperationState)}

/-- A record whose active keys are whatever they are. -/
def LoopState.Held (py : Python) (s : LoopState) : Prop := ∃ activeKeys, s.Kept py activeKeys

/-- The owned entries of one record are in another. -/
def Protects (operations operations' : List (String × OperationState)) : Prop :=
  ∀ e ∈ operations, e.2.isIdle = false → e ∈ operations'

theorem Protects.refl (operations : List (String × OperationState)) :
    Protects operations operations :=
  fun _ he _ => he

theorem Protects.trans {operations'' : List (String × OperationState)}
    (h : Protects operations operations') (h' : Protects operations' operations'') :
    Protects operations operations'' :=
  fun e he howned => h' e (h e he howned) howned

namespace LoopState

/-- An entry under another key stays. -/
theorem mem_setOperation_of_ne {key : String} {o : OperationState} {e : String × OperationState}
    (he : e ∈ operations) (hne : e.1 ≠ key) : e ∈ setOperation key o operations := by
  induction operations with
  | nil => exact absurd he List.not_mem_nil
  | cons head rest ih =>
      rw [setOperation]
      split
      · rename_i hhead
        obtain rfl | he := List.mem_cons.mp he
        · exact absurd hhead hne
        · exact List.mem_cons_of_mem _ he
      · obtain rfl | he := List.mem_cons.mp he
        · exact List.mem_cons_self
        · exact List.mem_cons_of_mem _ (ih he)

theorem mem_setOperation_self (key : String) (o : OperationState)
    (operations : List (String × OperationState)) : (key, o) ∈ setOperation key o operations := by
  induction operations with
  | nil => exact List.mem_cons_self
  | cons head rest ih =>
      rw [setOperation]
      split
      · exact List.mem_cons_self
      · exact List.mem_cons_of_mem _ ih

/-- Only one entry has a key. -/
theorem Kept.eq_of_key {activeKeys : List String} (hk : s.Kept py activeKeys)
    {e e' : String × OperationState} (he : e ∈ s.operations) (he' : e' ∈ s.operations)
    (hkey : e.1 = e'.1) : e = e' :=
  List.inj_on_of_nodup_map hk.distinct he he' hkey

theorem Kept.lookup_eq_some {activeKeys : List String} (hk : s.Kept py activeKeys) {key : String}
    {o : OperationState} : s.operations.lookup key = some o ↔ (key, o) ∈ s.operations :=
  Dict.lookup_eq_some hk.distinct

/-- Dropping entries keeps the record. -/
theorem Held.sublist (hs : s.Held py) (hsub : operations.Sublist s.operations) :
    Held py { s with operations } := by
  obtain ⟨activeKeys, hk⟩ := hs
  exact ⟨activeKeys, hk.lastCountedStep, (hsub.map Prod.fst).nodup hk.distinct,
    hsub.length_le.trans hk.bounded, fun e he => hk.active e (hsub.subset he),
    fun e he => hk.kept e (hsub.subset he)⟩

/-- Writing an entry keeps the record if there is room for it, at an edit sequence
that is not behind. -/
theorem Held.set (hs : s.Held py) {key : String} {o : OperationState} {editSeq : Nat}
    (hroom : key ∈ s.operations.map Prod.fst ∨ s.operations.length < maxOperations)
    (hseq : s.editSeq ≤ editSeq) (ho : o.Kept py editSeq) :
    Held py { s with editSeq, operations := setOperation key o s.operations } := by
  obtain ⟨activeKeys, hk⟩ := hs
  have hkeys : ((setOperation key o s.operations).map Prod.fst) = _ := setOperation_keys key o
  refine ⟨key :: activeKeys, hk.lastCountedStep, ?_, ?_, ?_, ?_⟩
  · rw [hkeys]
    split
    · exact hk.distinct
    · rename_i hnew
      exact hk.distinct.append (List.nodup_singleton _) (by simpa using hnew)
  · have hlen := congrArg List.length hkeys
    rw [List.length_map] at hlen
    show (setOperation key o s.operations).length ≤ maxOperations
    rw [hlen]
    split
    · simpa using hk.bounded
    · rename_i hnew
      have hlt := hroom.resolve_left hnew
      simpa using Nat.succ_le_of_lt hlt
  · intro e he
    obtain rfl | he := mem_setOperation he
    · exact .inl List.mem_cons_self
    · exact (hk.active e he).imp_left (List.mem_cons_of_mem key)
  · intro e he
    obtain rfl | he := mem_setOperation he
    · exact ho
    · have hold := hk.kept e he
      exact ⟨hold.executed.trans hseq, hold.reserved.trans hseq, hold.timeout⟩

/-- Writing an entry protects the others. -/
theorem protects_set {key : String} {o : OperationState}
    (hidle : ∀ e ∈ operations, e.1 = key → e.2.isIdle = true) :
    Protects operations (setOperation key o operations) := by
  intro e he howned
  refine mem_setOperation_of_ne he fun hkey => ?_
  rw [hidle e he hkey] at howned
  contradiction

/-! ## reserve -/

/-- Room is made by dropping an idle entry at most. -/
theorem makeRoom_spec {activeKeys : Option (List String)}
    (h : s.makeRoom activeKeys = some s') (hs : s.Held py) :
    s'.Held py ∧ s'.editSeq = s.editSeq ∧ s'.operations.length < maxOperations ∧
      Protects s.operations s'.operations ∧ s'.operations ⊆ s.operations := by
  unfold makeRoom at h
  split at h
  · rename_i hlen
    obtain rfl := Option.some.inj h
    exact ⟨hs, rfl, hlen, .refl _, fun _ he => he⟩
  · obtain ⟨evict, hfind, rfl⟩ := Option.map_eq_some_iff.mp h
    have hmem := List.mem_of_find?_eq_some hfind
    have hidle : evict.2.isIdle = true := by
      have hcond := List.find?_some hfind
      rw [Bool.and_eq_true] at hcond
      exact hcond.1
    have hsub := List.eraseP_sublist (p := fun e : String × OperationState => decide (e.1 = evict.1))
      (l := s.operations)
    refine ⟨hs.sublist hsub, rfl, ?_, ?_, hsub.subset⟩
    · obtain ⟨activeKeys, hk⟩ := hs
      have hlen := List.length_eraseP_of_mem
        (p := fun e : String × OperationState => decide (e.1 = evict.1)) hmem (by simp)
      have hpos := List.length_pos_of_mem hmem
      have hbound := hk.bounded
      show (s.operations.eraseP _).length < maxOperations
      omega
    · obtain ⟨activeKeys, hk⟩ := hs
      intro e he howned
      refine (List.mem_eraseP_of_neg ?_).mpr he
      intro hkey
      rw [hk.eq_of_key he hmem (of_decide_eq_true hkey), hidle] at howned
      contradiction

/-- What an admission leaves: an idle entry under the key, in a record that has
room for it. -/
structure Admits (py : Python) (s : LoopState) (r : Reservation) (s' : LoopState)
    (o : OperationState) : Prop where
  held : s'.Held py
  editSeq : s'.editSeq = s.editSeq
  mem : (r.key, o) ∈ s'.operations
  idle : o.isIdle = true
  protects : Protects s.operations s'.operations

theorem entryFor_spec {r : Reservation} {o : OperationState} (h : s.entryFor r = .ok (s', o))
    (hs : s.Held py) : Admits py s r s' o := by
  unfold entryFor at h
  cases hlookup : s.operations.lookup r.key with
  | some operation =>
      simp only [hlookup] at h
      split at h
      · rename_i hidle
        obtain ⟨rfl, rfl⟩ := Prod.mk.inj (Except.ok.inj h)
        obtain ⟨activeKeys, hk⟩ := hs
        exact ⟨⟨activeKeys, hk⟩, rfl, hk.lookup_eq_some.mp hlookup, hidle, .refl _⟩
      · contradiction
  | none =>
      simp only [hlookup] at h
      cases hroom : s.makeRoom r.activeKeys with
      | none => simp only [hroom] at h; contradiction
      | some roomy =>
          simp only [hroom] at h
          obtain ⟨rfl, rfl⟩ := Prod.mk.inj (Except.ok.inj h)
          obtain ⟨hroomy, hseq, hlen, hprotects, hsub⟩ := makeRoom_spec hroom hs
          have hfresh : r.key ∉ roomy.operations.map Prod.fst := by
            intro hmem
            obtain ⟨e, he, hkey⟩ := List.mem_map.mp hmem
            exact Dict.lookup_eq_none.mp hlookup (List.mem_map.mpr ⟨e, hsub he, hkey⟩)
          constructor
          · refine hroomy.set (.inr hlen) (Nat.le_refl _) ?_
            refine ⟨?_, ?_, ?_⟩
            · dsimp only
              split
              · exact Nat.le_refl _
              · exact Nat.zero_le _
            · dsimp only
              split
              · exact Nat.le_refl _
              · exact Nat.zero_le _
            · show (py.positiveTimeout (.float "0.0")).getD _ = _
              rw [py.positiveTimeout_zero]
              rfl
          · exact hseq
          · exact mem_setOperation_self _ _ _
          · rfl
          · refine hprotects.trans (protects_set fun e he hkey => ?_)
            exact absurd (List.mem_map.mpr ⟨e, he, hkey⟩) hfresh

/-- **`reserve`** keeps the record, and what it writes is under an idle key. -/
theorem reserve_spec (r : Reservation) (hs : s.Held py) :
    (s.reserve py longer r).1.Held py ∧
      Protects s.operations (s.reserve py longer r).1.operations := by
  unfold reserve
  cases hadmit : s.entryFor r with
  | error permit => exact ⟨hs, .refl _⟩
  | ok admitted =>
      obtain ⟨s', o⟩ := admitted
      have ha := entryFor_spec hadmit hs
      have hidem : ∀ wait, (if r.timeoutControl then py.positiveTimeout r.timeout else none) =
          some wait → py.positiveTimeout wait = some wait := by
        intro wait hwait
        split at hwait
        · exact py.positiveTimeout_idem _ _ hwait
        · contradiction
      dsimp only
      generalize (if r.timeoutControl then py.positiveTimeout r.timeout else none) = wait? at hidem ⊢
      split
      · exact ⟨ha.held, ha.protects⟩
      · have hkept : o.Kept py s'.editSeq := by
          obtain ⟨activeKeys, hk⟩ := ha.held
          exact hk.kept _ ha.mem
        constructor
        · refine ha.held.set (.inl (List.mem_map_of_mem ha.mem)) (Nat.le_refl _) ?_
          refine ⟨hkept.executed, Nat.le_refl _, ?_⟩
          cases wait? with
          | none => exact hkept.timeout
          | some wait =>
              dsimp only
              split
              · rw [hidem wait rfl]
                rfl
              · exact hkept.timeout
        · refine ha.protects.trans (protects_set fun e he hkey => ?_)
          obtain ⟨activeKeys, hk⟩ := ha.held
          rw [hk.eq_of_key he ha.mem hkey]
          exact ha.idle

/-! ## finish -/

/-- A finish by another owner, or of nothing, changes nothing. -/
theorem finish_of_ne {c : Completion} (h : ∀ o, s.operations.lookup c.key = some o →
      o.inflightToolCallId ≠ some (ownerOf c.toolCallId)) : s.finish c = (s, false) := by
  unfold finish
  cases hlookup : s.operations.lookup c.key with
  | none => rfl
  | some operation => exact if_pos (h operation hlookup)

theorem finish_held (c : Completion) (hs : s.Held py) : (s.finish c).1.Held py := by
  unfold finish
  cases hlookup : s.operations.lookup c.key with
  | none => exact hs
  | some operation =>
      dsimp only
      split
      · exact hs
      · have hmem : (c.key, operation) ∈ s.operations := by
          obtain ⟨activeKeys, hk⟩ := hs
          exact hk.lookup_eq_some.mp hlookup
        have hkept : operation.Kept py s.editSeq := by
          obtain ⟨activeKeys, hk⟩ := hs
          exact hk.kept _ hmem
        refine hs.set (.inl (List.mem_map_of_mem hmem)) ?_ ?_
        · split <;> omega
        · refine ⟨Nat.le_refl _, ?_, hkept.timeout⟩
          have := hkept.reserved
          dsimp only
          split <;> omega

/-- **`finish`** touches the entry of its own key only. -/
theorem finish_protects (c : Completion) {e : String × OperationState} (he : e ∈ s.operations)
    (hs : s.Held py) (hother : e.1 = c.key →
      e.2.inflightToolCallId ≠ some (ownerOf c.toolCallId)) : e ∈ (s.finish c).1.operations := by
  obtain ⟨activeKeys, hk⟩ := hs
  by_cases hkey : e.1 = c.key
  · have hlookup : s.operations.lookup c.key = some e.2 := by
      refine hk.lookup_eq_some.mpr ?_
      rw [← hkey]
      exact he
    rw [finish_of_ne fun o ho => by
      rw [hlookup] at ho
      rw [← Option.some.inj ho]
      exact hother hkey]
    exact he
  · unfold finish
    split
    · exact he
    · split
      · exact he
      · exact mem_setOperation_of_ne he hkey

/-! ## pruning and the window -/

theorem prune_protects (activeKeys : List String) :
    Protects s.operations (s.prune activeKeys).operations := by
  intro e he howned
  refine List.mem_filter.mpr ⟨he, ?_⟩
  rw [howned, Bool.not_false, Bool.or_true]

end LoopState

namespace TurnEnforcementState

/-- Expiring keys drops idle entries only. -/
theorem expire_all (recent : List String) (expired : List String)
    (operations : List (String × OperationState)) :
    (expired.foldl (expire recent) operations).Sublist operations ∧
      Protects operations (expired.foldl (expire recent) operations) := by
  induction expired generalizing operations with
  | nil => exact ⟨.refl _, .refl _⟩
  | cons key expired ih =>
      have hone : (expire recent operations key).Sublist operations ∧
          Protects operations (expire recent operations key) := by
        unfold expire
        split
        · exact ⟨.refl _, .refl _⟩
        · refine ⟨List.filter_sublist, fun e he howned => List.mem_filter.mpr ⟨he, ?_⟩⟩
          rw [howned, Bool.and_false, Bool.not_false]
      obtain ⟨hsub, hprotects⟩ := ih (expire recent operations key)
      exact ⟨hsub.trans hone.1, hone.2.trans hprotects⟩

/-- **`remember_tool_call_hash`** keeps the record and its owned entries. -/
theorem rememberToolCallHash_spec {t : TurnEnforcementState} (ht : t.loopState.Held py)
    (callHash : String) (maxWindow : Option Int) :
    (t.rememberToolCallHash callHash maxWindow).loopState.Held py ∧
      Protects t.loopState.operations
        (t.rememberToolCallHash callHash maxWindow).loopState.operations := by
  unfold rememberToolCallHash
  cases maxWindow with
  | none => exact ⟨ht, .refl _⟩
  | some window =>
      dsimp only
      split
      · exact ⟨ht, .refl _⟩
      · obtain ⟨hsub, hprotects⟩ := expire_all
          ((t.recentCallHashes ++ [callHash]).drop
            (windowStart (t.recentCallHashes ++ [callHash]).length window))
          ((t.recentCallHashes ++ [callHash]).take
            (windowStart (t.recentCallHashes ++ [callHash]).length window)) t.loopState.operations
        exact ⟨ht.sublist hsub, hprotects⟩

end TurnEnforcementState

/-! ## restoring -/

namespace LoopState

variable {editSeq : Nat} {activeKeys : List String}

/-- One item of a snapshot: an owned entry stays unless the item has its key, and an
owned item becomes an entry. -/
theorem readOperation_protects {item : String × Json}
    (hr : Reads py activeKeys editSeq operations)
    (h : readOperation py editSeq activeKeys operations item = some operations') :
    (∀ e ∈ operations, e.2.isIdle = false → e.1 ≠ item.1 → e ∈ operations') ∧
      (item.2.isObj = true → (OperationState.fromDict py editSeq item.2).isIdle = false →
        (item.1, OperationState.fromDict py editSeq item.2) ∈ operations') := by
  unfold readOperation at h
  dsimp only at h
  split at h
  · rename_i hskip
    obtain rfl := Option.some.inj h
    refine ⟨fun _ he _ _ => he, fun hobj howned => ?_⟩
    have hsome : (OperationState.fromDict py editSeq item.2).inflightToolCallId.isSome = true := by
      rw [← Option.not_isNone, ← OperationState.isIdle, howned]
      rfl
    rw [hobj, hsome, Bool.or_true] at hskip
    contradiction
  split at h
  · obtain rfl := Option.some.inj h
    exact ⟨fun _ he _ hne => mem_setOperation_of_ne he hne, fun _ _ => mem_setOperation_self _ _ _⟩
  split at h
  · rename_i evict hfind
    obtain rfl := Option.some.inj h
    refine ⟨fun e he howned hne => mem_setOperation_of_ne ?_ hne,
      fun _ _ => mem_setOperation_self _ _ _⟩
    refine (List.mem_eraseP_of_neg ?_).mpr he
    intro hkey
    have heq := List.inj_on_of_nodup_map hr.distinct he (List.mem_of_find?_eq_some hfind)
      (of_decide_eq_true hkey)
    have hidle : evict.2.isIdle = true := by
      have hcond := List.find?_some hfind
      exact hcond
    rw [heq, hidle] at howned
    contradiction
  · split at h
    · contradiction
    · rename_i hidle
      obtain rfl := Option.some.inj h
      refine ⟨fun _ he _ _ => he, fun _ howned => ?_⟩
      rw [OperationState.isIdle, Option.isNone_eq_false_iff] at howned
      exact absurd howned hidle

/-- **A restore keeps the owners**: every owned item of the snapshot is an entry. -/
theorem readOperations_owned {items : List (String × Json)}
    (hr : Reads py activeKeys editSeq operations)
    (h : readOperations py editSeq activeKeys items operations = some operations')
    (hkeys : (items.map Prod.fst).Nodup) :
    (∀ e ∈ operations, e.2.isIdle = false → e.1 ∉ items.map Prod.fst → e ∈ operations') ∧
      ∀ item ∈ items, item.2.isObj = true →
        (OperationState.fromDict py editSeq item.2).isIdle = false →
          (item.1, OperationState.fromDict py editSeq item.2) ∈ operations' := by
  induction items generalizing operations with
  | nil =>
      obtain rfl := Option.some.inj h
      exact ⟨fun _ he _ _ => he, nofun⟩
  | cons item rest ih =>
      obtain ⟨next, hnext, hrest⟩ := Option.bind_eq_some_iff.mp h
      obtain ⟨hnew, hkeys⟩ := List.nodup_cons.mp hkeys
      obtain ⟨hold, hitem⟩ := readOperation_protects hr hnext
      obtain ⟨hstay, hitems⟩ := ih (readOperation_reads hr hnext) hrest hkeys
      constructor
      · intro e he howned hfresh
        rw [List.map_cons, List.mem_cons, not_or] at hfresh
        exact hstay e (hold e he howned hfresh.1) howned hfresh.2
      · intro item' hmem hobj howned
        obtain rfl | hmem := List.mem_cons.mp hmem
        · exact hstay _ (hitem hobj howned) howned hnew
        · exact hitems item' hmem hobj howned

end LoopState

/-! ## every sequence of operations -/

/-- The keys a saved record has. -/
theorem LoopState.snapshotKeys_toDict (s : LoopState) :
    snapshotKeys s.toDict = s.operations.map Prod.fst := by
  simp [snapshotKeys, toDict, Json.get, Json.get?, List.lookup_cons]

namespace LoopOp

variable {t t' : TurnEnforcementState} {op : LoopOp}

/-- **Every operation keeps the record** well formed. -/
theorem step_held (h : op.perform py longer t = some t') (ht : t.loopState.Held py) :
    t'.loopState.Held py := by
  cases op with
  | reserve r =>
      obtain rfl := Option.some.inj h
      exact (LoopState.reserve_spec r ht).1
  | finish c =>
      obtain rfl := Option.some.inj h
      exact LoopState.finish_held c ht
  | prune activeKeys =>
      obtain rfl := Option.some.inj h
      exact ht.sublist List.filter_sublist
  | clone =>
      obtain rfl := Option.some.inj h
      exact ht
  | remember callHash maxWindow =>
      obtain rfl := Option.some.inj h
      exact (TurnEnforcementState.rememberToolCallHash_spec ht callHash maxWindow).1
  | fromDict raw legacy activeKeys =>
      obtain ⟨loopState, hread, rfl⟩ := Option.map_eq_some_iff.mp h
      exact ⟨_, LoopState.fromDict_kept hread⟩

/-- The operation finishes the call that owns `key`. -/
def Finishes (key owner : String) : LoopOp → Prop
  | finish c => c.key = key ∧ ownerOf c.toolCallId = owner
  | _ => False

/-- The operation puts a restored record in the place of this one. -/
def Restores : LoopOp → Prop
  | fromDict .. => True
  | _ => False

/-- **Every operation protects an owned entry**, unless its owner finishes it. -/
theorem step_protects {key owner : String} {o : OperationState}
    (h : op.perform py longer t = some t') (ht : t.loopState.Held py)
    (hmem : (key, o) ∈ t.loopState.operations) (howner : o.inflightToolCallId = some owner)
    (hfinish : ¬op.Finishes key owner) (hrestore : ¬op.Restores) :
    (key, o) ∈ t'.loopState.operations := by
  have howned : o.isIdle = false := by
    rw [OperationState.isIdle, howner]
    rfl
  cases op with
  | reserve r =>
      obtain rfl := Option.some.inj h
      exact (LoopState.reserve_spec r ht).2 (key, o) hmem howned
  | finish c =>
      obtain rfl := Option.some.inj h
      refine LoopState.finish_protects c hmem ht fun hkey heq => hfinish ⟨hkey.symm, ?_⟩
      rw [howner] at heq
      exact (Option.some.inj heq).symm
  | prune activeKeys =>
      obtain rfl := Option.some.inj h
      exact LoopState.prune_protects activeKeys (key, o) hmem howned
  | clone =>
      obtain rfl := Option.some.inj h
      exact hmem
  | remember callHash maxWindow =>
      obtain rfl := Option.some.inj h
      exact (TurnEnforcementState.rememberToolCallHash_spec ht callHash maxWindow).2 (key, o) hmem
        howned
  | fromDict raw legacy activeKeys => exact absurd trivial hrestore

theorem held_of_performAll {ops : List LoopOp} (h : performAll py longer t ops = some t')
    (ht : t.loopState.Held py) : t'.loopState.Held py := by
  induction ops generalizing t with
  | nil =>
      obtain rfl := Option.some.inj h
      exact ht
  | cons op ops ih =>
      rw [performAll, List.foldlM_cons] at h
      obtain ⟨next, hnext, hrest⟩ := Option.bind_eq_some_iff.mp h
      exact ih hrest (step_held hnext ht)

theorem protects_of_performAll {key owner : String} {o : OperationState} {ops : List LoopOp}
    (h : performAll py longer t ops = some t') (ht : t.loopState.Held py)
    (hmem : (key, o) ∈ t.loopState.operations) (howner : o.inflightToolCallId = some owner)
    (hops : ∀ op ∈ ops, ¬op.Finishes key owner ∧ ¬op.Restores) :
    (key, o) ∈ t'.loopState.operations := by
  induction ops generalizing t with
  | nil =>
      obtain rfl := Option.some.inj h
      exact hmem
  | cons op ops ih =>
      rw [performAll, List.foldlM_cons] at h
      obtain ⟨next, hnext, hrest⟩ := Option.bind_eq_some_iff.mp h
      obtain ⟨⟨hfinish, hrestore⟩, hops⟩ := List.forall_mem_cons.mp hops
      exact ih hrest (step_held hnext ht) (step_protects hnext ht hmem howner hfinish hrestore) hops

end LoopOp

/-- What is promised of the record of a turn that some operations led to. -/
structure LoopsKept (py : Python) (longer : Json → Json → Bool) (t : TurnEnforcementState) :
    Prop where
  distinct : (t.loopState.operations.map Prod.fst).Nodup
  bounded : t.loopState.operations.length ≤ 200
  sequences : ∀ e ∈ t.loopState.operations,
    e.2.lastExecutedEditSeq ≤ t.loopState.editSeq ∧
      e.2.validationReservedEditSeq ≤ t.loopState.editSeq
  /-- An owned entry stays as it is, whatever is done but finish it by its owner. -/
  owned : ∀ key owner o, (key, o) ∈ t.loopState.operations → o.inflightToolCallId = some owner →
    ∀ ops t', LoopOp.performAll py longer t ops = some t' →
      (∀ op ∈ ops, ¬op.Finishes key owner ∧ ¬op.Restores) → (key, o) ∈ t'.loopState.operations
  /-- A restore keeps every owned item of the snapshot it reads. -/
  restored : ∀ raw legacy activeKeys t',
    (LoopOp.fromDict raw legacy activeKeys).perform py longer t = some t' →
      ∀ items, raw.get "operations" = .obj items → (items.map Prod.fst).Nodup →
        ∀ item ∈ items, item.2.isObj = true →
          ∀ owner, (item.2.get "inflight_tool_call_id").asStr? = some owner →
            ∃ o, (item.1, o) ∈ t'.loopState.operations ∧ o.inflightToolCallId = some owner
  /-- A finish by another owner changes nothing. -/
  foreign : ∀ c, (∀ o, (c.key, o) ∈ t.loopState.operations →
      o.inflightToolCallId ≠ some (ownerOf c.toolCallId)) →
    (LoopOp.finish c).perform py longer t = some t ∧ (t.loopState.finish c).2 = false
  /-- The record is read back from what it is saved as. -/
  roundTrip : ∀ legacy (activeKeys : Option (List String)),
    (∀ active ∈ activeKeys, ∀ e ∈ t.loopState.operations, e.2.isIdle = true → e.1 ∈ active) →
      LoopState.restore py t.loopState.toDict legacy activeKeys = some t.loopState

/-- **Ownership and persistence of the loop record** over every sequence of
operations from a new turn. -/
theorem loops_kept {ops : List LoopOp} {t : TurnEnforcementState}
    (h : LoopOp.performAll py longer {} ops = some t) : LoopsKept py longer t := by
  have hnew : LoopState.Held py ({} : TurnEnforcementState).loopState :=
    ⟨[], le_refl (-1 : Int), List.nodup_nil, Nat.zero_le _, by simp, by simp⟩
  have ht := LoopOp.held_of_performAll h hnew
  obtain ⟨activeKeys, hk⟩ := ht
  constructor
  · exact hk.distinct
  · exact hk.bounded
  · exact fun e he => ⟨(hk.kept e he).executed, (hk.kept e he).reserved⟩
  · intro key owner o hmem howner ops t' hrun hops
    exact LoopOp.protects_of_performAll hrun ⟨activeKeys, hk⟩ hmem howner hops
  · intro raw legacy active t' hperform items hitems hkeys item hmem hobj owner howner
    obtain ⟨s, hfrom, rfl⟩ := Option.map_eq_some_iff.mp hperform
    unfold LoopState.restore LoopState.fromDict at hfrom
    cases raw with
    | obj fields =>
        simp only [hitems] at hfrom
        obtain ⟨operations, hread, hs⟩ := Option.bind_eq_some_iff.mp hfrom
        obtain rfl := Option.some.inj hs
        have hstart : LoopState.Reads py (active.getD (LoopState.snapshotKeys (.obj fields)))
            (((Json.obj fields).get "edit_seq").nonnegativeInt?.getD 0) [] :=
          ⟨List.nodup_nil, Nat.zero_le _, by simp, by simp⟩
        have howned := (LoopState.readOperations_owned hstart hread hkeys).2 item hmem hobj
        refine ⟨_, howned ?_, howner⟩
        show ((item.2.get "inflight_tool_call_id").asStr?).isNone = false
        rw [howner]
        rfl
    | null | bool _ | int _ | float _ | str _ | arr _ => contradiction
  · intro c hother
    have hsame := LoopState.finish_of_ne (s := t.loopState) (c := c)
      fun o ho => hother o (hk.lookup_eq_some.mp ho)
    rw [LoopOp.perform, hsame]
    exact ⟨rfl, rfl⟩
  · intro legacy active hactive
    refine LoopState.fromDict_toDict ?_ legacy
    refine { hk with active := fun e he => ?_ }
    cases hidle : e.2.isIdle with
    | false =>
        refine .inr ?_
        rw [← Option.not_isNone, ← OperationState.isIdle, hidle]
        rfl
    | true =>
        refine .inl ?_
        cases active with
        | none =>
            show e.1 ∈ LoopState.snapshotKeys t.loopState.toDict
            rw [LoopState.snapshotKeys_toDict]
            exact List.mem_map_of_mem he
        | some active => exact hactive active rfl e he hidle

/-- Two calls of one key, the second refused, and a completion by a third. -/
def LoopOp.contested : List LoopOp := [
  .reserve { key := "read", recentSame := 1, limit := 3, workspaceSensitive := true,
             toolCallId := some "call_1" },
  .reserve { key := "read", recentSame := 2, limit := 3, workspaceSensitive := true,
             toolCallId := some "call_2" },
  .finish { key := "read", facts := {}, toolCallId := some "call_3" }]

theorem loops_kept_sample : LoopsKept .sample (fun _ _ => false)
    { loopState := { operations := [("read", { inflightToolCallId := some "call_1" })] } } :=
  have hrun : LoopOp.performAll .sample (fun _ _ => false) {} LoopOp.contested =
      some { loopState :=
        { operations := [("read", { inflightToolCallId := some "call_1" })] } } := by decide
  loops_kept hrun

end OpenCollab
