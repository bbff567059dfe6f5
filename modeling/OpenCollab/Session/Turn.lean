import Mathlib.Data.Finset.Sort
import Mathlib.Data.String.Basic
import OpenCollab.Json

/-!
# OpenCollab.Session.Turn

The enforcement window of a user turn: the signals that are checkpointed,
restored and reset together.  `LoopState` is its record of repeated calls; the
driver reads only its `blockedRounds`, a snapshot carries all of it.

What is read back from a snapshot is any JSON value.  `Python` collects the
conversions the readers call that depend on number and text formats; everything
proved holds for each choice of them.

* `LoopState.fromDict_kept` — what is read back is well formed;
* `LoopState.fromDict_toDict` — a well-formed record is read back as it is.
-/

namespace OpenCollab

/-! ## conversions -/

/-- `int(text)`, `int(float)`, `str(value)` of a value that is no string, and
`_positive_timeout(value)`, which keeps a positive finite float. -/
structure Python where
  intOfStr : String → Option Int
  intOfFloat : String → Option Int
  strOf : Json → String
  positiveTimeout : Json → Option Json
  positiveTimeout_idem : ∀ v t, positiveTimeout v = some t → positiveTimeout t = some t
  positiveTimeout_zero : positiveTimeout (.float "0.0") = none

namespace Python

/-- `int(value)`; `none` is its `TypeError`, `ValueError` or `OverflowError`. -/
def int? (py : Python) : Json → Option Int
  | .int n => some n
  | .bool b => some (if b then 1 else 0)
  | .float text => py.intOfFloat text
  | .str text => py.intOfStr text
  | _ => none

/-- `str(value)`. -/
def str (py : Python) : Json → String
  | .str text => text
  | value => py.strOf value

/-- `_snapshot_nonnegative_int(value)`. -/
def snapshotNonnegativeInt (py : Python) (value : Json) : Nat := ((py.int? value).getD 0).toNat

@[simp] theorem int?_int (py : Python) (n : Int) : py.int? (.int n) = some n := rfl

@[simp] theorem str_str (py : Python) (text : String) : py.str (.str text) = text := rfl

@[simp] theorem snapshotNonnegativeInt_natCast (py : Python) (n : Nat) :
    py.snapshotNonnegativeInt (.int n) = n := Int.toNat_natCast n

end Python

namespace Json

/-- `_nonnegative_int(value)`; a `bool` is refused, and `none` is the default. -/
def nonnegativeInt? : Json → Option Nat
  | .int n => if 0 ≤ n then some n.toNat else none
  | _ => none

/-- `value is True`. -/
def isTrue : Json → Bool
  | .bool b => b
  | _ => false

/-- A text or `None`. -/
def ofOption (text : Option String) : Json := text.elim .null .str

@[simp] theorem nonnegativeInt?_natCast (n : Nat) : nonnegativeInt? (.int n) = some n := by
  simp [nonnegativeInt?]

@[simp] theorem isTrue_bool (b : Bool) : isTrue (.bool b) = b := rfl

@[simp] theorem asStr?_ofOption (text : Option String) : (ofOption text).asStr? = text := by
  cases text <;> rfl

end Json

/-! ## the record of repeated calls -/

inductive ExitKind where
  | unknown
  | completed
  | failed
  | timeout
deriving DecidableEq, Inhabited

namespace ExitKind

def text : ExitKind → String
  | unknown => "unknown"
  | completed => "completed"
  | failed => "failed"
  | timeout => "timeout"

/-- A text that is no kind is `unknown`. -/
def ofJson : Json → ExitKind
  | .str "completed" => completed
  | .str "failed" => failed
  | .str "timeout" => timeout
  | _ => unknown

@[simp] theorem ofJson_text (kind : ExitKind) : ofJson (.str kind.text) = kind := by
  cases kind <;> rfl

end ExitKind

/-- `_OperationState`; the timeout is kept as the float it is persisted as. -/
structure OperationState where
  lastExecutedEditSeq : Nat := 0
  validationReservedEditSeq : Nat := 0
  lastExitKind : ExitKind := .unknown
  maxAttemptedTimeout : Json := .float "0.0"
  timeoutRecoveryUsed : Bool := false
  lastResultKey : Option String := none
  inflightToolCallId : Option String := none
deriving DecidableEq, Inhabited

structure LoopState where
  editSeq : Nat := 0
  blockedRounds : Nat := 0
  lastCountedStep : Int := -1
  operations : List (String × OperationState) := []
deriving DecidableEq, Inhabited

/-- `_MAX_OPERATIONS`. -/
def maxOperations : Nat := 200

namespace OperationState

def toDict (o : OperationState) : Json := .obj
  [("last_executed_edit_seq", .int o.lastExecutedEditSeq),
    ("validation_reserved_edit_seq", .int o.validationReservedEditSeq),
    ("last_exit_kind", .str o.lastExitKind.text),
    ("max_attempted_timeout", o.maxAttemptedTimeout),
    ("timeout_recovery_used", .bool o.timeoutRecoveryUsed),
    ("last_result_key", .ofOption o.lastResultKey),
    ("inflight_tool_call_id", .ofOption o.inflightToolCallId)]

/-- One record of `LoopState.from_dict`. -/
def fromDict (py : Python) (editSeq : Nat) (value : Json) : OperationState where
  lastExecutedEditSeq := min ((value.get "last_executed_edit_seq").nonnegativeInt?.getD 0) editSeq
  validationReservedEditSeq := 
    min ((value.get "validation_reserved_edit_seq").nonnegativeInt?.getD 0) editSeq
  lastExitKind := .ofJson (value.get "last_exit_kind")
  maxAttemptedTimeout :=
    (py.positiveTimeout (value.get "max_attempted_timeout")).getD (.float "0.0")
  timeoutRecoveryUsed := (value.get "timeout_recovery_used").isTrue
  lastResultKey := (value.get "last_result_key").asStr?
  inflightToolCallId := (value.get "inflight_tool_call_id").asStr?

/-- What every record read back satisfies. -/
structure Kept (py : Python) (editSeq : Nat) (o : OperationState) : Prop where
  executed : o.lastExecutedEditSeq ≤ editSeq
  reserved : o.validationReservedEditSeq ≤ editSeq
  timeout : (py.positiveTimeout o.maxAttemptedTimeout).getD (.float "0.0") = o.maxAttemptedTimeout

end OperationState

namespace LoopState

def toDict (s : LoopState) : Json := .obj
  [("version", .int 1),
    ("edit_seq", .int s.editSeq),
    ("blocked_rounds", .int s.blockedRounds),
    ("last_counted_step", .int s.lastCountedStep),
    ("operations", .obj (s.operations.map fun entry => (entry.1, entry.2.toDict)))]

/-- Overwrite an entry in place, or append it. -/
def setOperation (key : String) (o : OperationState) :
    List (String × OperationState) → List (String × OperationState)
  | [] => [(key, o)]
  | entry :: rest =>
      if entry.1 = key then (key, o) :: rest else entry :: setOperation key o rest

/-- One item of `operations`.  A full record drops its first resolved entry;
`none` is the `ValueError` of a record full of unresolved ones. -/
def readOperation (py : Python) (editSeq : Nat) (activeKeys : List String)
    (operations : List (String × OperationState)) (item : String × Json) :
    Option (List (String × OperationState)) :=
  let o := OperationState.fromDict py editSeq item.2
  if !item.2.isObj || !(activeKeys.contains item.1 || o.inflightToolCallId.isSome) then
    some operations
  else if operations.length < maxOperations then some (setOperation item.1 o operations)
  else match operations.find? fun entry => entry.2.inflightToolCallId.isNone with
    | some entry =>
        some (setOperation item.1 o (operations.eraseP fun e => e.1 = entry.1))
    | none => if o.inflightToolCallId.isSome then none else some operations

/-- The loop over `operations.items()`. -/
def readOperations (py : Python) (editSeq : Nat) (activeKeys : List String) :
    List (String × Json) → List (String × OperationState) → Option (List (String × OperationState))
  | [], operations => some operations
  | item :: rest, operations => do
      let operations ← readOperation py editSeq activeKeys operations item
      readOperations py editSeq activeKeys rest operations

/-- `LoopState.from_dict(raw, legacy_blocked_calls=…, active_keys=…)`; `none` is
its `ValueError`. -/
def fromDict (py : Python) (raw : Json) (legacyBlockedCalls : Nat) (activeKeys : List String) :
    Option LoopState :=
  match raw with
  | .obj _ => do
      let editSeq := (raw.get "edit_seq").nonnegativeInt?.getD 0
      let items := match raw.get "operations" with
        | .obj items => items
        | _ => []
      let operations ← readOperations py editSeq activeKeys items []
      return {
        editSeq
        blockedRounds := (raw.get "blocked_rounds").nonnegativeInt?.getD 0
        lastCountedStep := ((raw.get "last_counted_step").nonnegativeInt?.map Int.ofNat).getD (-1)
        operations }
  | _ => some { blockedRounds := if 0 < legacyBlockedCalls then 1 else 0 }

/-- What every record read back satisfies. -/
structure Kept (py : Python) (activeKeys : List String) (s : LoopState) : Prop where
  lastCountedStep : -1 ≤ s.lastCountedStep
  distinct : (s.operations.map Prod.fst).Nodup
  bounded : s.operations.length ≤ maxOperations
  active : ∀ entry ∈ s.operations,
    entry.1 ∈ activeKeys ∨ entry.2.inflightToolCallId.isSome = true
  kept : ∀ entry ∈ s.operations, entry.2.Kept py s.editSeq

/-! ### what is read back -/

variable {py : Python} {activeKeys : List String} {editSeq : Nat}
  {operations operations' : List (String × OperationState)}

theorem mem_setOperation {key : String} {o : OperationState} {entry : String × OperationState}
    (h : entry ∈ setOperation key o operations) : entry = (key, o) ∨ entry ∈ operations := by
  induction operations with
  | nil => exact .inl (List.mem_singleton.mp h)
  | cons e rest ih =>
      rw [setOperation] at h
      split at h
      · obtain h | h := List.mem_cons.mp h
        · exact .inl h
        · exact .inr (List.mem_cons_of_mem _ h)
      · obtain h | h := List.mem_cons.mp h
        · exact .inr (h ▸ List.mem_cons_self)
        · exact (ih h).imp_right (List.mem_cons_of_mem _)

/-- A new key goes to the end. -/
theorem setOperation_of_not_mem {key : String} {o : OperationState}
    (h : key ∉ operations.map Prod.fst) : setOperation key o operations = operations ++ [(key, o)] := by
  induction operations with
  | nil => rfl
  | cons e rest ih =>
      rw [List.map_cons, List.mem_cons, not_or] at h
      rw [setOperation, if_neg (Ne.symm h.1), ih h.2, List.cons_append]

theorem setOperation_keys (key : String) (o : OperationState) :
    (setOperation key o operations).map Prod.fst =
      if key ∈ operations.map Prod.fst then operations.map Prod.fst
      else operations.map Prod.fst ++ [key] := by
  by_cases h : key ∈ operations.map Prod.fst
  · rw [if_pos h]
    induction operations with
    | nil => exact absurd h List.not_mem_nil
    | cons e rest ih =>
        rw [setOperation]
        split
        · rename_i he
          rw [List.map_cons, List.map_cons, he]
        · rename_i he
          rw [List.map_cons, List.map_cons, ih ((List.mem_cons.mp h).resolve_left (Ne.symm he))]
  · rw [if_neg h, setOperation_of_not_mem h, List.map_append]
    rfl

/-- The part of `Kept` the loop maintains. -/
structure Reads (py : Python) (activeKeys : List String) (editSeq : Nat)
    (operations : List (String × OperationState)) : Prop where
  distinct : (operations.map Prod.fst).Nodup
  bounded : operations.length ≤ maxOperations
  active : ∀ entry ∈ operations,
    entry.1 ∈ activeKeys ∨ entry.2.inflightToolCallId.isSome = true
  kept : ∀ entry ∈ operations, entry.2.Kept py editSeq

theorem kept_operation (value : Json) :
    (OperationState.fromDict py editSeq value).Kept py editSeq := by
  refine ⟨Nat.min_le_right _ _, Nat.min_le_right _ _, ?_⟩
  cases ht : py.positiveTimeout (value.get "max_attempted_timeout") with
  | none => simp [OperationState.fromDict, ht, py.positiveTimeout_zero]
  | some t => simp [OperationState.fromDict, ht, py.positiveTimeout_idem _ _ ht]

/-- A record that is not full takes an entry. -/
theorem Reads.set (hr : Reads py activeKeys editSeq operations)
    (hlen : operations.length < maxOperations) {key : String} {o : OperationState}
    (ha : key ∈ activeKeys ∨ o.inflightToolCallId.isSome = true) (hk : o.Kept py editSeq) :
    Reads py activeKeys editSeq (setOperation key o operations) := by
  have hkeys : (setOperation key o operations).map Prod.fst = _ := setOperation_keys key o
  refine ⟨?_, ?_, ?_, ?_⟩
  · rw [hkeys]
    split
    · exact hr.distinct
    · rename_i hn
      exact hr.distinct.append (List.nodup_singleton _) (by simpa using hn)
  · have hl := congrArg List.length hkeys
    rw [List.length_map] at hl
    rw [hl]
    split
    · simpa using hr.bounded
    · simpa using Nat.succ_le_of_lt hlen
  · intro entry he
    obtain rfl | he := mem_setOperation he
    · exact ha
    · exact hr.active entry he
  · intro entry he
    obtain rfl | he := mem_setOperation he
    · exact hk
    · exact hr.kept entry he

theorem Reads.erase (hr : Reads py activeKeys editSeq operations) (key : String) :
    Reads py activeKeys editSeq (operations.eraseP fun e => e.1 = key) := by
  have hsub := List.eraseP_sublist (p := fun e : String × OperationState => decide (e.1 = key))
    (l := operations)
  exact ⟨(hsub.map Prod.fst).nodup hr.distinct, hsub.length_le.trans hr.bounded,
    fun entry he => hr.active entry (hsub.subset he), fun entry he => hr.kept entry (hsub.subset he)⟩

theorem readOperation_reads {item : String × Json} (hr : Reads py activeKeys editSeq operations)
    (h : readOperation py editSeq activeKeys operations item = some operations') :
    Reads py activeKeys editSeq operations' := by
  unfold readOperation at h
  dsimp only at h
  split at h
  · exact Option.some.inj h ▸ hr
  rename_i hskip
  have ha : item.1 ∈ activeKeys ∨
      (OperationState.fromDict py editSeq item.2).inflightToolCallId.isSome = true := by
    simp only [Bool.or_eq_true, Bool.not_eq_true', not_or, Bool.not_eq_false] at hskip
    exact hskip.2.imp_left List.contains_iff_mem.mp
  split at h
  · rename_i hlen
    exact Option.some.inj h ▸ hr.set hlen ha (kept_operation _)
  split at h
  · rename_i hlen entry hfind
    have hmem := List.mem_of_find?_eq_some hfind
    refine Option.some.inj h ▸ (hr.erase entry.1).set ?_ ha (kept_operation _)
    have hl := List.length_eraseP_of_mem (p := fun e : String × OperationState => decide (e.1 = entry.1))
      hmem (by simp)
    have hpos := List.length_pos_of_mem hmem
    have hb := hr.bounded
    omega
  · split at h
    · contradiction
    · exact Option.some.inj h ▸ hr

theorem readOperations_reads {items : List (String × Json)}
    (hr : Reads py activeKeys editSeq operations)
    (h : readOperations py editSeq activeKeys items operations = some operations') :
    Reads py activeKeys editSeq operations' := by
  induction items generalizing operations with
  | nil => exact Option.some.inj h ▸ hr
  | cons item rest ih =>
      obtain ⟨next, hnext, hrest⟩ := Option.bind_eq_some_iff.mp h
      exact ih (readOperation_reads hr hnext) hrest

/-- **A record read back** is well formed. -/
theorem fromDict_kept {raw : Json} {legacy : Nat} {s : LoopState}
    (h : fromDict py raw legacy activeKeys = some s) : s.Kept py activeKeys := by
  unfold fromDict at h
  split at h
  · obtain ⟨operations, hread, hs⟩ := Option.bind_eq_some_iff.mp h
    obtain rfl := Option.some.inj hs
    have hr := readOperations_reads ⟨by simp, Nat.zero_le _, by simp, by simp⟩ hread
    refine ⟨?_, hr.distinct, hr.bounded, hr.active, hr.kept⟩
    dsimp only
    cases (Json.get _ "last_counted_step").nonnegativeInt? with
    | none => decide
    | some n => simp
  · obtain rfl := Option.some.inj h
    exact ⟨le_refl (-1 : Int), List.nodup_nil, Nat.zero_le _, by simp, by simp⟩

theorem operation_fromDict_toDict {o : OperationState} (hk : o.Kept py editSeq) :
    OperationState.fromDict py editSeq o.toDict = o := by
  have h₁ := Nat.min_eq_left hk.executed
  have h₂ := Nat.min_eq_left hk.reserved
  have h₃ := hk.timeout
  cases o
  simp_all [OperationState.fromDict, OperationState.toDict, Json.get, Json.get?, List.lookup_cons]

theorem readOperations_toDict (rest : List (String × OperationState))
    (hr : Reads py activeKeys editSeq (operations ++ rest)) :
    readOperations py editSeq activeKeys (rest.map fun entry => (entry.1, entry.2.toDict))
      operations = some (operations ++ rest) := by
  induction rest generalizing operations with
  | nil => rw [List.append_nil]; rfl
  | cons entry rest ih =>
      have hmem : entry ∈ operations ++ entry :: rest := by simp
      have hfrom := operation_fromDict_toDict (hr.kept entry hmem)
      have hkeep : (!entry.2.toDict.isObj ||
          !(activeKeys.contains entry.1 || entry.2.inflightToolCallId.isSome)) = false := by
        have ha := hr.active entry hmem
        rw [← List.contains_iff_mem, ← Bool.or_eq_true] at ha
        rw [ha]
        rfl
      have hlen : operations.length < maxOperations := by
        have hb := hr.bounded
        rw [List.length_append, List.length_cons] at hb
        omega
      have hnew : entry.1 ∉ operations.map Prod.fst := by
        have hd := hr.distinct
        rw [List.map_append, List.map_cons] at hd
        exact fun h => (List.nodup_append.mp hd).2.2 _ h _ List.mem_cons_self rfl
      have hstep : readOperation py editSeq activeKeys operations (entry.1, entry.2.toDict) =
          some (operations ++ [entry]) := by
        unfold readOperation
        simp only [hfrom, hkeep, Bool.false_eq_true, if_false, if_pos hlen,
          setOperation_of_not_mem hnew]
      rw [List.append_cons] at hr
      rw [List.map_cons, readOperations, hstep, List.append_cons operations entry rest]
      exact ih hr

/-- **A well-formed record** is read back as it is. -/
theorem fromDict_toDict {s : LoopState} (hk : s.Kept py activeKeys) (legacy : Nat) :
    fromDict py s.toDict legacy activeKeys = some s := by
  have hreads : Reads py activeKeys s.editSeq ([] ++ s.operations) :=
    ⟨hk.distinct, hk.bounded, hk.active, hk.kept⟩
  have hread := readOperations_toDict s.operations hreads
  have hcount : (((Json.int s.lastCountedStep).nonnegativeInt?.map Int.ofNat).getD (-1)) =
      s.lastCountedStep := by
    have h := hk.lastCountedStep
    rw [Json.nonnegativeInt?]
    split
    · simp
      omega
    · simp
      omega
  unfold fromDict toDict
  simp [Json.get, Json.get?, List.lookup_cons, hread, hcount]

end LoopState

/-! ## the window -/

structure TurnEnforcementState where
  recentCallHashes : List String := []
  loopState : LoopState := {}
  writeEffectUnknown : Bool := false
  lastProgressUnknown : Bool := false
  readsSinceLastEdit : Nat := 0
  hasLandedWrite : Bool := false
  lowYieldSinceProgress : Nat := 0
  distinctEvidenceCount : Nat := 0
  seenResultHashes : Finset String := ∅
  scoutLedger : List Json := []
  stepsSinceProgress : Nat := 0
  loopBlockedSinceProgress : Nat := 0
deriving DecidableEq, Inhabited

namespace TurnEnforcementState

/-- The items of a snapshot's `session_state` that carry the window. -/
def fields (t : TurnEnforcementState) : List (String × Json) :=
  [("recent_call_hashes", .arr (t.recentCallHashes.map .str)),
    ("reads_since_last_edit", .int t.readsSinceLastEdit),
    ("has_landed_write", .bool t.hasLandedWrite),
    ("low_yield_since_progress", .int t.lowYieldSinceProgress),
    ("distinct_evidence_count", .int t.distinctEvidenceCount),
    ("seen_result_hashes", .arr ((t.seenResultHashes.sort (· ≤ ·)).map .str)),
    ("scout_ledger", .arr t.scoutLedger),
    ("steps_since_progress", .int t.stepsSinceProgress),
    ("loop_blocked_since_progress", .int t.loopBlockedSinceProgress),
    ("loop_state", t.loopState.toDict),
    ("write_effect_unknown", .bool t.writeEffectUnknown),
    ("last_progress_unknown", .bool t.lastProgressUnknown)]

/-- `[str(value) for value in values] if isinstance(values, list) else []`. -/
def textsOf (py : Python) (values : Json) : List String := (values.asArr?.getD []).map py.str

/-- The window `Session.restore` reads; `none` is the `ValueError` of its loop
record. -/
def restore (py : Python) (raw : Json) : Option TurnEnforcementState := do
  let recentCallHashes := textsOf py (raw.get "recent_call_hashes")
  let loopBlockedSinceProgress := py.snapshotNonnegativeInt (raw.get "loop_blocked_since_progress")
  let loopState ← LoopState.fromDict py (raw.get "loop_state") loopBlockedSinceProgress
    recentCallHashes
  return {
    recentCallHashes
    loopState
    writeEffectUnknown := (raw.get "write_effect_unknown").isTrue
    lastProgressUnknown := (raw.get "last_progress_unknown").isTrue
    readsSinceLastEdit := py.snapshotNonnegativeInt (raw.get "reads_since_last_edit")
    hasLandedWrite := (raw.get "has_landed_write").truthy
    lowYieldSinceProgress := py.snapshotNonnegativeInt (raw.get "low_yield_since_progress")
    distinctEvidenceCount := py.snapshotNonnegativeInt (raw.get "distinct_evidence_count")
    seenResultHashes := (textsOf py (raw.get "seen_result_hashes")).toFinset
    scoutLedger := ((raw.get "scout_ledger").asArr?.getD []).filter Json.isObj
    stepsSinceProgress := py.snapshotNonnegativeInt (raw.get "steps_since_progress")
    loopBlockedSinceProgress }

end TurnEnforcementState

end OpenCollab
