import OpenCollab.Session.ToolLoops

/-!
# OpenCollab.Session.LoopPermits

The permissions of the repeat record.  A repeated call goes out again only for a
reason, an edit it has not validated or a timeout longer than the last, and a
reason is spent by the dispatch that uses it.

* `Advances` — an entry that stays only ever moves on: its validated edit and its
  longest timeout grow, its recovery stays spent;
* `advances_of_perform`, `later_self`, `spends_of_reserve` — what one call does;
* `reservations_spend` — from it, what any two dispatches of one key have to do with
  each other;
* `loops_permit` — the permissions of every run, and what a rejection leaves.
-/

namespace OpenCollab

open Lib

/-! ## calls -/

/-- A call on the record. -/
inductive LoopCall where
  | reserve (r : Reservation)
  | finish (c : Completion)
  | prune (activeKeys : List String)

/-- The permit is an exceptional one for an edit that was not validated. -/
def Permit.validates : Permit → Bool
  | validation | validationAndTimeoutRecovery => true
  | _ => false

/-- The permit is an exceptional one for a longer timeout. -/
def Permit.recovers : Permit → Bool
  | timeoutRecovery | validationAndTimeoutRecovery => true
  | _ => false

/-- The call is not dispatched. -/
def Permit.rejects : Permit → Bool
  | blocked | inflight | capacity => true
  | _ => false

/-- A rejection is no permission. -/
theorem Permit.not_granted {permit : Permit} (h : permit.rejects = true) :
    permit.validates = false ∧ permit.recovers = false := by
  cases permit <;> first | exact ⟨rfl, rfl⟩ | contradiction

/-- A reservation, what it was answered and the edit sequence it was made at. -/
structure Reserved where
  call : Reservation
  permit : Permit
  editSeq : Nat

/-- The timeout a call is dispatched with: a positive finite one under its control. -/
def Reservation.wait (py : Python) (r : Reservation) : Option Json :=
  if r.timeoutControl then py.positiveTimeout r.timeout else none

variable {τ : Type} [LinearOrder τ]

/-- `>` on timeouts, in an order of their lengths. -/
def longerBy (seconds : Json → τ) (a b : Json) : Bool := decide (seconds b < seconds a)

namespace LoopCall

/-- Perform one call. -/
def perform (py : Python) (seconds : Json → τ) (s : LoopState) : LoopCall → LoopState
  | reserve r => (s.reserve py (longerBy seconds) r).1
  | finish c => (s.finish c).1
  | prune activeKeys => s.prune activeKeys

/-- Perform a sequence of calls. -/
def performAll (py : Python) (seconds : Json → τ) : LoopState → List LoopCall → LoopState :=
  List.foldl (perform py seconds)

/-- The reservations of a run, in order. -/
def reservations (py : Python) (seconds : Json → τ) (s : LoopState) :
    List LoopCall → List Reserved
  | [] => []
  | reserve r :: calls =>
      ⟨r, (s.reserve py (longerBy seconds) r).2, s.editSeq⟩ ::
        reservations py seconds (s.reserve py (longerBy seconds) r).1 calls
  | finish c :: calls => reservations py seconds (s.finish c).1 calls
  | prune activeKeys :: calls => reservations py seconds (s.prune activeKeys) calls

/-- The record of `key`, once there is one, is there for the rest of the run. -/
def Retains (py : Python) (seconds : Json → τ) (key : String) (s : LoopState) :
    List LoopCall → Prop
  | [] => True
  | call :: calls =>
      (key ∈ s.operations.map Prod.fst →
        key ∈ (call.perform py seconds s).operations.map Prod.fst) ∧
      Retains py seconds key (call.perform py seconds s) calls

end LoopCall

/-! ## what an entry can become -/

/-- An entry moves on. -/
structure Advances (seconds : Json → τ) (o o' : OperationState) : Prop where
  reserved : o.validationReservedEditSeq ≤ o'.validationReservedEditSeq
  timeout : seconds o.maxAttemptedTimeout ≤ seconds o'.maxAttemptedTimeout
  recovered : o.timeoutRecoveryUsed = true → o'.timeoutRecoveryUsed = true

/-- What an entry still permits a reservation to be. -/
structure Permits (py : Python) (seconds : Json → τ) (o : OperationState) (d : Reserved) :
    Prop where
  validation : d.permit.validates = true → o.validationReservedEditSeq < d.editSeq
  unspent : d.permit.recovers = true → o.timeoutRecoveryUsed = false
  longer : d.permit.recovers = true →
    ∃ wait, d.call.wait py = some wait ∧ seconds o.maxAttemptedTimeout < seconds wait

/-- The reservation is one that the record of its key still permits. -/
def Later (py : Python) (seconds : Json → τ) (s : LoopState) (d : Reserved) : Prop :=
  ∀ o, s.operations.lookup d.call.key = some o → Permits py seconds o d

variable {py : Python} {seconds : Json → τ} {s s' : LoopState} {o o' : OperationState}
  {d d' : Reserved}

theorem Advances.refl (o : OperationState) : Advances seconds o o :=
  ⟨Nat.le_refl _, le_refl _, fun h => h⟩

/-- What an entry permits, its past did. -/
theorem Permits.of_advances (h : Permits py seconds o' d) (ho : Advances seconds o o') :
    Permits py seconds o d := by
  constructor
  · intro hv
    exact Nat.lt_of_le_of_lt ho.reserved (h.validation hv)
  · intro hr
    cases hused : o.timeoutRecoveryUsed with
    | false => rfl
    | true =>
        have := ho.recovered hused
        rw [h.unspent hr] at this
        contradiction
  · intro hr
    obtain ⟨wait, hwait, hlt⟩ := h.longer hr
    exact ⟨wait, hwait, lt_of_le_of_lt ho.timeout hlt⟩

namespace LoopState

/-! ## reserve -/

/-- What is written under a key is what is found there. -/
theorem Held.lookup_eq_some (hs : s.Held py) {key : String} :
    s.operations.lookup key = some o ↔ (key, o) ∈ s.operations := by
  obtain ⟨activeKeys, hk⟩ := hs
  exact hk.lookup_eq_some

/-- Admitting a call under a key leaves the records under other keys. -/
theorem mem_of_entryFor {r : Reservation} (h : s.entryFor r = .ok (s', o)) (hs : s.Held py)
    {e : String × OperationState} (he : e ∈ s'.operations) (hne : e.1 ≠ r.key) :
    e ∈ s.operations := by
  unfold entryFor at h
  cases hlookup : s.operations.lookup r.key with
  | some operation =>
      simp only [hlookup] at h
      split at h
      · obtain ⟨rfl, rfl⟩ := Prod.mk.inj (Except.ok.inj h)
        exact he
      · contradiction
  | none =>
      simp only [hlookup] at h
      cases hroom : s.makeRoom r.activeKeys with
      | none => simp only [hroom] at h; contradiction
      | some roomy =>
          simp only [hroom] at h
          obtain ⟨rfl, rfl⟩ := Prod.mk.inj (Except.ok.inj h)
          obtain ⟨-, -, -, -, hsub⟩ := makeRoom_spec hroom hs
          obtain rfl | he := mem_setOperation he
          · exact absurd rfl hne
          · exact hsub he

/-- The record a call is admitted to is the one it has. -/
theorem lookup_of_entryFor {r : Reservation} (h : s.entryFor r = .ok (s', o))
    {held : OperationState} (hheld : s.operations.lookup r.key = some held) :
    s' = s ∧ o = held := by
  unfold entryFor at h
  simp only [hheld] at h
  split at h
  · obtain ⟨rfl, rfl⟩ := Prod.mk.inj (Except.ok.inj h)
    exact ⟨rfl, rfl⟩
  · contradiction

/-- A rejected call is admitted to no record. -/
theorem rejects_of_entryFor_error {r : Reservation} {permit : Permit} (h : s.entryFor r = .error permit) :
    permit.rejects = true := by
  unfold entryFor at h
  split at h
  · split at h
    · contradiction
    · obtain rfl := Except.error.inj h
      rfl
  · split at h
    · obtain rfl := Except.error.inj h
      rfl
    · contradiction

/-- What a dispatch makes of the record it is admitted to. -/
structure Grants (py : Python) (seconds : Json → τ) (editSeq : Nat) (r : Reservation)
    (permit : Permit) (o o' : OperationState) : Prop where
  dispatched : permit.rejects = false
  reserved : o'.validationReservedEditSeq = editSeq
  timeout : seconds o.maxAttemptedTimeout ≤ seconds o'.maxAttemptedTimeout
  waited : ∀ wait, r.wait py = some wait → seconds wait ≤ seconds o'.maxAttemptedTimeout
  recovered : o.timeoutRecoveryUsed = true → o'.timeoutRecoveryUsed = true
  validation : permit.validates = true → o.validationReservedEditSeq < editSeq
  recovery : permit.recovers = true →
    o.timeoutRecoveryUsed = false ∧ o'.timeoutRecoveryUsed = true ∧
      ∃ wait, r.wait py = some wait ∧ seconds o.maxAttemptedTimeout < seconds wait

/-- **What a reservation comes to**: no record, a record without a reason, or a
dispatch. -/
theorem reserve_cases (py : Python) (seconds : Json → τ) (s : LoopState) (r : Reservation) :
    (∃ permit, permit.rejects = true ∧ s.reserve py (longerBy seconds) r = (s, permit)) ∨
      ∃ s' o, s.entryFor r = .ok (s', o) ∧
        (s.reserve py (longerBy seconds) r = (s', .blocked) ∨
          ∃ o' permit, Grants py seconds s'.editSeq r permit o o' ∧
            s.reserve py (longerBy seconds) r =
              ({ s' with operations := setOperation r.key o' s'.operations }, permit)) := by
  unfold reserve
  cases hadmit : s.entryFor r with
  | error permit => exact .inl ⟨permit, rejects_of_entryFor_error hadmit, rfl⟩
  | ok admitted =>
      obtain ⟨s', o⟩ := admitted
      refine .inr ⟨s', o, rfl, ?_⟩
      dsimp only
      rw [← Reservation.wait]
      split
      · exact .inl rfl
      · rename_i hallowed
        refine .inr ⟨_, _, ?_, rfl⟩
        have hvalidation : (r.workspaceSensitive && decide (max o.lastExecutedEditSeq
            o.validationReservedEditSeq < s'.editSeq)) = true →
            o.validationReservedEditSeq < s'.editSeq := by
          intro h
          rw [Bool.and_eq_true, decide_eq_true_iff] at h
          omega
        have hrecovery : ((r.wait py).any fun wait => decide (o.lastExitKind = .timeout) &&
            longerBy seconds wait o.maxAttemptedTimeout && !o.timeoutRecoveryUsed) = true →
            o.timeoutRecoveryUsed = false ∧
              ∃ wait, r.wait py = some wait ∧ seconds o.maxAttemptedTimeout < seconds wait := by
          intro h
          obtain ⟨wait, hwait, h⟩ := (Option.any_eq_true _ _).mp h
          rw [Bool.and_eq_true, Bool.and_eq_true, Bool.not_eq_true'] at h
          exact ⟨h.2, wait, hwait, of_decide_eq_true h.1.2⟩
        generalize (r.workspaceSensitive && decide (max o.lastExecutedEditSeq
          o.validationReservedEditSeq < s'.editSeq)) = validation at hallowed hvalidation ⊢
        generalize ((r.wait py).any fun wait => decide (o.lastExitKind = .timeout) &&
          longerBy seconds wait o.maxAttemptedTimeout && !o.timeoutRecoveryUsed) = recovery
          at hallowed hrecovery ⊢
        generalize decide (r.limit ≤ r.recentSame) = exceptional at hallowed ⊢
        constructor
        · cases exceptional <;> cases validation <;> cases recovery <;> rfl
        · rfl
        · dsimp only
          split
          · split
            · rename_i hlonger
              exact (of_decide_eq_true hlonger).le
            · exact le_refl _
          · exact le_refl _
        · intro wait hwait
          simp only [hwait]
          split
          · exact le_refl _
          · rename_i hlonger
            exact not_lt.mp fun hlt => hlonger (decide_eq_true hlt)
        · intro hused
          rw [hused, Bool.true_or]
        · intro hvalidates
          refine hvalidation ?_
          cases exceptional <;> cases validation <;> cases recovery <;>
            first | rfl | contradiction
        · intro hrecovers
          have hboth : exceptional = true ∧ recovery = true := by
            cases exceptional <;> cases validation <;> cases recovery <;>
              first | exact ⟨rfl, rfl⟩ | contradiction
          obtain ⟨hunused, hwait⟩ := hrecovery hboth.2
          refine ⟨hunused, ?_, hwait⟩
          rw [hboth.1, hboth.2, Bool.and_self, Bool.or_true]

/-! ## what one call does to an entry -/

/-- An entry that is left alone moves on. -/
theorem Held.advances_of_mem (hs : s.Held py) {e : String × OperationState}
    (he : e ∈ s.operations) (hlookup : s.operations.lookup e.1 = some o) :
    Advances seconds o e.2 := by
  rw [hs.lookup_eq_some.mpr he] at hlookup
  rw [Option.some.inj hlookup]
  exact .refl _

theorem Held.reserved_le (hs : s.Held py) {e : String × OperationState} (he : e ∈ s.operations) :
    e.2.validationReservedEditSeq ≤ s.editSeq := by
  obtain ⟨activeKeys, hk⟩ := hs
  exact (hk.kept e he).reserved

theorem advances_of_entryFor {r : Reservation} (h : s.entryFor r = .ok (s', o')) (hs : s.Held py)
    {e : String × OperationState} (he : e ∈ s'.operations)
    (hlookup : s.operations.lookup e.1 = some o) : Advances seconds o e.2 := by
  by_cases hkey : e.1 = r.key
  · rw [hkey] at hlookup
    obtain ⟨rfl, -⟩ := lookup_of_entryFor h hlookup
    refine hs.advances_of_mem he ?_
    rw [hkey]
    exact hlookup
  · exact hs.advances_of_mem (mem_of_entryFor h hs he hkey) hlookup

theorem advances_of_reserve {r : Reservation} (hs : s.Held py) {e : String × OperationState}
    (he : e ∈ (s.reserve py (longerBy seconds) r).1.operations)
    (hlookup : s.operations.lookup e.1 = some o) : Advances seconds o e.2 := by
  obtain ⟨permit, -, hres⟩ | ⟨s', held, hadmit, hres⟩ := reserve_cases py seconds s r
  · rw [hres] at he
    exact hs.advances_of_mem he hlookup
  obtain hres | ⟨next, permit, hgrants, hres⟩ := hres
  · rw [hres] at he
    exact advances_of_entryFor hadmit hs he hlookup
  · rw [hres] at he
    obtain rfl | he := mem_setOperation he
    · obtain ⟨rfl, rfl⟩ := lookup_of_entryFor hadmit hlookup
      constructor
      · rw [hgrants.reserved]
        exact hs.reserved_le (hs.lookup_eq_some.mp hlookup)
      · exact hgrants.timeout
      · exact hgrants.recovered
    · exact advances_of_entryFor hadmit hs he hlookup

theorem advances_of_finish {c : Completion} (hs : s.Held py) {e : String × OperationState}
    (he : e ∈ (s.finish c).1.operations) (hlookup : s.operations.lookup e.1 = some o) :
    Advances seconds o e.2 := by
  unfold finish at he
  split at he
  · exact hs.advances_of_mem he hlookup
  · rename_i held hheld
    split at he
    · exact hs.advances_of_mem he hlookup
    · obtain rfl | he := mem_setOperation he
      · rw [hheld] at hlookup
        obtain rfl := Option.some.inj hlookup
        exact ⟨le_max_left _ _, le_refl _, fun h => h⟩
      · exact hs.advances_of_mem he hlookup

end LoopState

namespace LoopCall

variable {call : LoopCall} {calls : List LoopCall} {key : String}

/-- **Every call keeps the record** well formed. -/
theorem perform_held (call : LoopCall) (hs : s.Held py) : (call.perform py seconds s).Held py := by
  cases call with
  | reserve r => exact (LoopState.reserve_spec r hs).1
  | finish c => exact LoopState.finish_held c hs
  | prune activeKeys => exact hs.sublist List.filter_sublist

/-- **Every call lets an entry move on**, if it is still there. -/
theorem advances_of_perform (hs : s.Held py) {e : String × OperationState}
    (he : e ∈ (call.perform py seconds s).operations)
    (hlookup : s.operations.lookup e.1 = some o) : Advances seconds o e.2 := by
  cases call with
  | reserve r => exact LoopState.advances_of_reserve hs he hlookup
  | finish c => exact LoopState.advances_of_finish hs he hlookup
  | prune activeKeys => exact hs.advances_of_mem (List.mem_of_mem_filter he) hlookup

/-- A reservation the record permits after a call, it permitted before. -/
theorem later_of_perform (hs : s.Held py) (hkey : d.call.key ∈ s.operations.map Prod.fst →
      d.call.key ∈ (call.perform py seconds s).operations.map Prod.fst)
    (h : Later py seconds (call.perform py seconds s) d) : Later py seconds s d := by
  intro o ho
  obtain ⟨e, he, hfst⟩ := List.mem_map.mp
    (hkey (List.mem_map_of_mem (hs.lookup_eq_some.mp ho)))
  have hlookup := (perform_held call hs).lookup_eq_some.mpr he
  rw [hfst] at hlookup
  refine (h e.2 hlookup).of_advances (advances_of_perform hs he ?_)
  rw [hfst]
  exact ho

/-! ## what two reservations of one key have to do with each other -/

/-- The earlier reservation leaves this much to the later one. -/
structure Spends (py : Python) (seconds : Json → τ) (d d' : Reserved) : Prop where
  validation : d.permit.validates = true → d'.permit.validates = true → d.editSeq < d'.editSeq
  recovery : d.permit.recovers = true → d'.permit.recovers = false
  longer : d.permit.rejects = false → d'.permit.recovers = true →
    ∀ wait, d.call.wait py = some wait →
      ∃ wait', d'.call.wait py = some wait' ∧ seconds wait < seconds wait'

/-- A reservation is one that the record permits. -/
theorem later_self (hs : s.Held py) (r : Reservation) :
    Later py seconds s ⟨r, (s.reserve py (longerBy seconds) r).2, s.editSeq⟩ := by
  intro o ho
  have hrejected : ∀ permit : Permit, permit.rejects = true →
      Permits py seconds o ⟨r, permit, s.editSeq⟩ := by
    intro permit hrejects
    obtain ⟨hv, hr⟩ := Permit.not_granted hrejects
    constructor
    · intro h
      rw [hv] at h
      contradiction
    · intro h
      rw [hr] at h
      contradiction
    · intro h
      rw [hr] at h
      contradiction
  obtain ⟨permit, hrejects, hres⟩ | ⟨s', held, hadmit, hres⟩ := LoopState.reserve_cases py seconds s r
  · rw [hres]
    exact hrejected permit hrejects
  obtain ⟨rfl, rfl⟩ := LoopState.lookup_of_entryFor hadmit ho
  obtain hres | ⟨next, permit, hgrants, hres⟩ := hres
  · rw [hres]
    exact hrejected .blocked rfl
  · rw [hres]
    exact ⟨hgrants.validation, fun h => (hgrants.recovery h).1, fun h => (hgrants.recovery h).2.2⟩

/-- What the record permits after a reservation, the reservation left to it. -/
theorem spends_of_reserve (hs : s.Held py) {r : Reservation} (hkey : d.call.key = r.key)
    (h : Later py seconds (s.reserve py (longerBy seconds) r).1 d) :
    Spends py seconds ⟨r, (s.reserve py (longerBy seconds) r).2, s.editSeq⟩ d := by
  have hrejected : ∀ permit : Permit, permit.rejects = true →
      Spends py seconds ⟨r, permit, s.editSeq⟩ d := by
    intro permit hrejects
    obtain ⟨hv, hr⟩ := Permit.not_granted hrejects
    constructor
    · intro h
      rw [hv] at h
      contradiction
    · intro h
      rw [hr] at h
      contradiction
    · intro h
      rw [hrejects] at h
      contradiction
  have hheld : (s.reserve py (longerBy seconds) r).1.Held py := (LoopState.reserve_spec r hs).1
  obtain ⟨permit, hrejects, hres⟩ | ⟨s', held, hadmit, hres⟩ := LoopState.reserve_cases py seconds s r
  · rw [hres]
    exact hrejected permit hrejects
  obtain hres | ⟨next, permit, hgrants, hres⟩ := hres
  · rw [hres]
    exact hrejected .blocked rfl
  · rw [hres] at h hheld ⊢
    have hnext := h next (by
      rw [hkey]
      exact hheld.lookup_eq_some.mpr (LoopState.mem_setOperation_self _ _ _))
    have hseq := (LoopState.entryFor_spec hadmit hs).editSeq
    constructor
    · intro hv hv'
      have hlt := hnext.validation hv'
      rw [hgrants.reserved, hseq] at hlt
      exact hlt
    · intro hr
      cases hrecovers : d.permit.recovers with
      | false => rfl
      | true =>
          have hunspent := hnext.unspent hrecovers
          rw [(hgrants.recovery hr).2.1] at hunspent
          contradiction
    · intro _ hr wait hwait
      obtain ⟨wait', hwait', hlt⟩ := hnext.longer hr
      exact ⟨wait', hwait', lt_of_le_of_lt (hgrants.waited wait hwait) hlt⟩

/-- The reservations of one key in a run. -/
def under (key : String) (ds : List Reserved) : List Reserved :=
  ds.filter fun d => d.call.key = key

/-- **The dispatches of a key spend its permissions**: each is one its record
permits, and each leaves less to those after it. -/
theorem reservations_spend (hs : s.Held py) (hkey : Retains py seconds key s calls) :
    (∀ d ∈ under key (reservations py seconds s calls), Later py seconds s d) ∧
      (under key (reservations py seconds s calls)).Pairwise (Spends py seconds) := by
  induction calls generalizing s with
  | nil => exact ⟨fun d hd => absurd hd List.not_mem_nil, List.Pairwise.nil⟩
  | cons call calls ih =>
      obtain ⟨hstay, hrest⟩ := hkey
      obtain ⟨hlater, hspend⟩ := ih (perform_held call hs) hrest
      have hback : ∀ d ∈ under key (reservations py seconds (call.perform py seconds s) calls),
          Later py seconds s d := by
        intro d hd
        obtain ⟨-, hd'⟩ := List.mem_filter.mp hd
        obtain rfl := of_decide_eq_true hd'
        exact later_of_perform hs hstay (hlater d hd)
      cases call with
      | finish c => exact ⟨hback, hspend⟩
      | prune activeKeys => exact ⟨hback, hspend⟩
      | reserve r =>
          by_cases hr : r.key = key
          · have hunder : under key (reservations py seconds s (reserve r :: calls)) =
                ⟨r, (s.reserve py (longerBy seconds) r).2, s.editSeq⟩ :: under key (reservations py
                  seconds ((reserve r).perform py seconds s) calls) :=
              List.filter_cons_of_pos (decide_eq_true hr)
            rw [hunder]
            constructor
            · intro d hd
              obtain rfl | hd := List.mem_cons.mp hd
              · exact later_self hs r
              · exact hback d hd
            · refine List.Pairwise.cons (fun d hd => ?_) hspend
              obtain ⟨-, hd'⟩ := List.mem_filter.mp hd
              refine spends_of_reserve hs ?_ (hlater d hd)
              rw [hr]
              exact of_decide_eq_true hd'
          · have hunder : under key (reservations py seconds s (reserve r :: calls)) =
                under key (reservations py seconds ((reserve r).perform py seconds s) calls) :=
              List.filter_cons_of_neg (by simpa using hr)
            rw [hunder]
            exact ⟨hback, hspend⟩

/-- A recovery is dispatched with a timeout. -/
theorem waits_of_recovers (hd : d ∈ reservations py seconds s calls)
    (hr : d.permit.recovers = true) : ∃ wait, d.call.wait py = some wait := by
  induction calls generalizing s with
  | nil => exact absurd hd List.not_mem_nil
  | cons call calls ih =>
      cases call with
      | finish c => exact ih hd
      | prune activeKeys => exact ih hd
      | reserve r =>
          obtain rfl | hd := List.mem_cons.mp hd
          · obtain ⟨permit, hrejects, hres⟩ | ⟨s', held, hadmit, hres⟩ :=
              LoopState.reserve_cases py seconds s r
            · rw [hres] at hr
              rw [(Permit.not_granted hrejects).2] at hr
              contradiction
            obtain hres | ⟨next, permit, hgrants, hres⟩ := hres
            · rw [hres] at hr
              contradiction
            · rw [hres] at hr
              obtain ⟨-, -, wait, hwait, -⟩ := hgrants.recovery hr
              exact ⟨wait, hwait⟩
          · exact ih hd

end LoopCall

/-! ## rejections -/

/-- A rejection leaves the record as it is, but for one idle entry that it may give
up for a new key when it is full. -/
structure Untouched (key : String) (s s' : LoopState) : Prop where
  editSeq : s'.editSeq = s.editSeq
  entries : ∃ displaced : Option (String × OperationState),
    (∀ key' o, s.operations.lookup key' = some o →
      s'.operations.lookup key' = some o ∨ displaced = some (key', o)) ∧
    ∀ e ∈ displaced, e.2.isIdle = true ∧ key ∉ s.operations.map Prod.fst ∧
      200 ≤ s.operations.length

namespace LoopState

/-- Room is made at the cost of one idle entry of a full record. -/
theorem displaced_of_makeRoom {activeKeys : Option (List String)}
    (h : s.makeRoom activeKeys = some s') (hs : s.Held py) :
    ∃ displaced : Option (String × OperationState),
      (∀ e ∈ s.operations, e ∈ s'.operations ∨ displaced = some e) ∧
        ∀ e ∈ displaced, e.2.isIdle = true ∧ 200 ≤ s.operations.length := by
  unfold makeRoom at h
  split at h
  · obtain rfl := Option.some.inj h
    exact ⟨none, fun e he => .inl he, fun _ he => by contradiction⟩
  · rename_i hlen
    obtain ⟨evict, hfind, rfl⟩ := Option.map_eq_some_iff.mp h
    have hmem := List.mem_of_find?_eq_some hfind
    have hcond := List.find?_some hfind
    rw [Bool.and_eq_true] at hcond
    obtain ⟨activeKeys, hk⟩ := hs
    refine ⟨some evict, fun e he => ?_, fun e he => ?_⟩
    · by_cases hkey : e.1 = evict.1
      · exact .inr (congrArg some (hk.eq_of_key hmem he hkey.symm))
      · exact .inl ((List.mem_eraseP_of_neg (by simpa using hkey)).mpr he)
    · obtain rfl := Option.some.inj he
      exact ⟨hcond.1, not_lt.mp hlen⟩

/-- A call that is admitted leaves the other entries, but for a displaced one. -/
theorem untouched_of_entryFor {r : Reservation} (h : s.entryFor r = .ok (s', o)) (hs : s.Held py) :
    Untouched r.key s s' := by
  have hadmits := entryFor_spec h hs
  refine ⟨hadmits.editSeq, ?_⟩
  unfold entryFor at h
  cases hlookup : s.operations.lookup r.key with
  | some operation =>
      simp only [hlookup] at h
      split at h
      · obtain ⟨rfl, rfl⟩ := Prod.mk.inj (Except.ok.inj h)
        exact ⟨none, fun _ _ ho => .inl ho, fun _ he => by contradiction⟩
      · contradiction
  | none =>
      simp only [hlookup] at h
      cases hroom : s.makeRoom r.activeKeys with
      | none => simp only [hroom] at h; contradiction
      | some roomy =>
          simp only [hroom] at h
          obtain ⟨rfl, rfl⟩ := Prod.mk.inj (Except.ok.inj h)
          obtain ⟨displaced, hstay, hgone⟩ := displaced_of_makeRoom hroom hs
          have hfresh := Dict.lookup_eq_none.mp hlookup
          refine ⟨displaced, fun key' o ho => ?_, fun e he => ?_⟩
          · have hmem := hs.lookup_eq_some.mp ho
            refine (hstay _ hmem).imp_left fun hroomy => ?_
            refine hadmits.held.lookup_eq_some.mpr (mem_setOperation_of_ne hroomy fun hkey => ?_)
            exact hfresh (List.mem_map.mpr ⟨_, hmem, hkey⟩)
          · exact ⟨(hgone e he).1, hfresh, (hgone e he).2⟩

/-- **A rejection leaves the record untouched.** -/
theorem untouched_of_rejects {r : Reservation} (hs : s.Held py)
    (h : (s.reserve py (longerBy seconds) r).2.rejects = true) :
    Untouched r.key s (s.reserve py (longerBy seconds) r).1 := by
  obtain ⟨permit, -, hres⟩ | ⟨s', held, hadmit, hres⟩ := reserve_cases py seconds s r
  · rw [hres]
    exact ⟨rfl, none, fun _ _ ho => .inl ho, fun _ he => by contradiction⟩
  obtain hres | ⟨next, permit, hgrants, hres⟩ := hres
  · rw [hres]
    exact untouched_of_entryFor hadmit hs
  · rw [hres] at h
    rw [hgrants.dispatched] at h
    contradiction

end LoopState

/-! ## every run -/

/-- What is promised of the reservations of one key, in the order of a run. -/
structure Permissions (py : Python) (seconds : Json → τ) (ds : List Reserved) : Prop where
  /-- At most one validation is granted at each edit sequence. -/
  validations :
    (ds.filter fun d => d.permit.validates).Pairwise fun d d' => d.editSeq < d'.editSeq
  /-- At most one recovery is granted. -/
  recoveries : (ds.filter fun d => d.permit.recovers).length ≤ 1
  /-- A recovery has a longer timeout than every dispatch before it had. -/
  longest : ∀ before d after, ds = before ++ d :: after → d.permit.recovers = true →
    ∃ wait, d.call.wait py = some wait ∧
      ∀ d' ∈ before, d'.permit.rejects = false →
        ∀ wait', d'.call.wait py = some wait' → seconds wait' < seconds wait

open LoopCall in
/-- **The permissions of the repeat record.**  In every run of reservations and
completions from an empty record, a key whose entry stays is granted one validation
for each edit and one recovery in all, with a longer timeout than any before; and
a rejection leaves the record untouched. -/
theorem loops_permit (py : Python) (seconds : Json → τ) (calls : List LoopCall) :
    (∀ key, Retains py seconds key {} calls →
      Permissions py seconds (under key (reservations py seconds {} calls))) ∧
    ∀ r, (((performAll py seconds {} calls).reserve py (longerBy seconds) r).2.rejects = true →
      Untouched r.key (performAll py seconds {} calls)
        ((performAll py seconds {} calls).reserve py (longerBy seconds) r).1) := by
  have hnew : LoopState.Held py {} :=
    ⟨[], le_refl (-1 : Int), List.nodup_nil, Nat.zero_le _, by simp, by simp⟩
  constructor
  · intro key hkey
    obtain ⟨-, hspend⟩ := reservations_spend hnew hkey
    constructor
    · rw [List.pairwise_filter]
      exact hspend.imp fun h hv hv' => h.validation hv hv'
    · have hpair : ((under key (reservations py seconds {} calls)).filter
          fun d => d.permit.recovers).Pairwise fun _ _ => False := by
        rw [List.pairwise_filter]
        refine hspend.imp fun h hr hr' => ?_
        rw [h.recovery hr] at hr'
        contradiction
      cases hds : (under key (reservations py seconds {} calls)).filter
          fun d => d.permit.recovers with
      | nil => exact Nat.zero_le _
      | cons d ds =>
          rw [hds] at hpair
          cases ds with
          | nil => exact Nat.le_refl _
          | cons d' ds => exact (List.rel_of_pairwise_cons hpair List.mem_cons_self).elim
    · intro before d after hds hr
      have hd : d ∈ under key (reservations py seconds {} calls) := by
        rw [hds]
        exact List.mem_append_right _ List.mem_cons_self
      obtain ⟨wait, hwait⟩ := waits_of_recovers (List.mem_filter.mp hd).1 hr
      refine ⟨wait, hwait, fun d' hd' hdispatched wait' hwait' => ?_⟩
      rw [hds, List.pairwise_append] at hspend
      obtain ⟨later, hlater, hlt⟩ :=
        (hspend.2.2 d' hd' d List.mem_cons_self).longer hdispatched hr wait' hwait'
      rw [hwait] at hlater
      rw [Option.some.inj hlater]
      exact hlt
  · intro r hrejects
    have hreached : (performAll py seconds {} calls).Held py :=
      List.foldlRecOn calls _ hnew fun s hs call _ => perform_held call hs
    exact LoopState.untouched_of_rejects hreached hrejects

/-- Conversions that know two floats, one of them finite. -/
def Python.timed : Python where
  intOfStr := fun _ => none
  intOfFloat := fun _ => none
  strOf := fun _ => ""
  positiveTimeout := fun v => if v = .float "5.0" then some v else none
  positiveTimeout_idem := fun v t h => by
    split at h
    · rename_i hv
      obtain rfl := Option.some.inj h
      exact if_pos hv
    · contradiction
  positiveTimeout_zero := by decide

/-- The lengths of the two floats. -/
def LoopCall.lengths (v : Json) : WithTop Nat :=
  if v = .float "inf" then ⊤ else if v = .float "5.0" then .some 5 else .some 0

/-- A command that may wait as long as `timeout` says. -/
def Reservation.command (recentSame : Int) (timeout : String) : Reservation where
  key := "test"
  recentSame := recentSame
  limit := 3
  workspaceSensitive := true
  timeoutControl := true
  timeout := .float timeout

/-- A command without a finite timeout is cut off, and tried again with one. -/
def LoopCall.unbounded : List LoopCall := [
  .reserve (.command 1 "inf"),
  .finish { key := "test", facts := { timedOut := some true } },
  .reserve (.command 3 "5.0")]

open LoopCall in
/-- A timeout that is not finite is no timeout: the recovery is shorter. -/
theorem unbounded_recovers :
    (Retains .timed lengths "test" {} unbounded ∧
      (reservations .timed lengths {} unbounded).map Reserved.permit =
        [.ordinary, .timeoutRecovery] ∧
      (reservations .timed lengths {} unbounded).map (·.call.timeout) =
        [.float "inf", .float "5.0"]) ∧
      ¬lengths (.float "inf") < lengths (.float "5.0") := by
  refine ⟨⟨?_, by decide, by decide⟩, by decide⟩
  simp only [Retains, unbounded]
  decide

open LoopCall in
theorem loops_permit_unbounded :
    Permissions .timed lengths (under "test" (reservations .timed lengths {} unbounded)) ∧
      Untouched "test" (performAll .timed lengths {} unbounded)
        ((performAll .timed lengths {} unbounded).reserve .timed (longerBy lengths)
          (.command 4 "5.0")).1 := by
  obtain ⟨hgranted, hrejected⟩ := loops_permit .timed lengths unbounded
  constructor
  · refine hgranted "test" ?_
    simp only [Retains, unbounded]
    decide
  · exact hrejected (.command 4 "5.0") (by decide)

end OpenCollab
