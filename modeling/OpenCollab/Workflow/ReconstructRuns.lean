import OpenCollab.Workflow.Reconstruct
import Mathlib.Tactic.Linarith

/-!
# OpenCollab.Workflow.ReconstructRuns

What every run of the reconstruction workflow respects, whatever the agents, the
hidden program, the generator and the evaluator do.

* `Streak`, `Ended`, `Judgement` — what a trace says: rounds whose programs passed
  every example accepted before them, and how the selection judged a candidate;
* `Probes` — what asking for examples may change: new examples with new keys,
  and the stop reason where the budget ran out (`requestExamples_spec`);
* `Safe` — the observed inputs differ, the granted batches have their sizes, the
  rounds are bounded, and an early stop ends a streak of promotions;
* `reconstruct_protocol` — the protocol, for every run.
-/

namespace OpenCollab.Reconstruct

open Lib Lib.Effect

variable {ι ο : Type} {task : Task ι ο} {env : Surroundings ι ο} {args : Args}
  {s s' : State ι ο} {bound : Nat}

/-! ## what a trace says

Traces begin with what was last. -/

/-- A result is the output the example expects. -/
def Task.passes (task : Task ι ο) (e : ι × ο) (result : Option ο) : Bool :=
  match result, task.jsonableOutput e.2 with
  | some out, some expected => task.outputsMatch out expected
  | _, _ => false

/-- How many of the examples are passed. -/
def Task.passed (task : Task ι ο) (examples : List (ι × ο)) (results : List (Option ο)) : Nat :=
  (examples.zip results).countP fun p => task.passes p.1 p.2

namespace Event

/-- The coder's calls. -/
def isCoder : Event ι ο → Bool
  | coder => true
  | _ => false

/-- Something is looked at, which changes nothing the workflow knows or keeps. -/
def isLook : Event ι ο → Bool
  | evaluated _ _ _ => true
  | missing _ => true
  | read _ _ => true
  | _ => false

def example? : Event ι ο → Option (ι × ο)
  | accepted e => some e
  | _ => none

def archived? : Event ι ο → Option Nat
  | archived iteration => some iteration
  | _ => none

end Event

/-- The examples that were accepted, in order. -/
def known (trace : List (Event ι ο)) : List (ι × ο) := (trace.filterMap Event.example?).reverse

/-- The candidates that were archived, in order. -/
def archivedIn (trace : List (Event ι ο)) : List Nat := (trace.filterMap Event.archived?).reverse

/-- What a batch leaves in a trace. -/
def acceptances (batch : List (ι × ο)) : List (Event ι ο) := (batch.map Event.accepted).reverse

/-- A round, of which no more is said than that no example was accepted since the coder's call: the
program was evaluated on every example accepted before, and passed them all. -/
def Passed (task : Task ι ο) (trace rest : List (Event ι ο)) : Prop :=
  ∃ since results,
    trace = since ++ .evaluated .program ((known rest).map Prod.fst) results :: .coder :: rest ∧
    (∀ e ∈ since, e.isCoder = false ∧ e.example? = none) ∧
    List.Forall₂ (fun e r => task.passes e r = true) (known rest) results

/-- The last `k` rounds each passed every example known to it, and after each of them a batch was
granted. -/
def Streak (task : Task ι ο) (args : Args) : Nat → List (Event ι ο) → Prop
  | 0, _ => True
  | k + 1, trace => ∃ since batch round rest j,
      trace = since ++ (acceptances batch ++ round) ∧ (∀ e ∈ since, e.isCoder = false) ∧
      batch.length = args.initialBatch + j * args.batchStep ∧ Passed task round rest ∧
      Streak task args k rest

/-- The last `k` rounds each passed every example known to it, with a batch granted between any two
of them. -/
def Ended (task : Task ι ο) (args : Args) (k : Nat) (trace : List (Event ι ο)) : Prop :=
  ∃ since round rest, trace = since ++ round ∧ (∀ e ∈ since, e.isCoder = false) ∧
    Passed task round rest ∧ Streak task args (k - 1) rest

theorem known_append (seen trace : List (Event ι ο)) :
    known (seen ++ trace) = known trace ++ known seen := by
  rw [known, known, known, List.filterMap_append, List.reverse_append]

theorem archivedIn_append (seen trace : List (Event ι ο)) :
    archivedIn (seen ++ trace) = archivedIn trace ++ archivedIn seen := by
  rw [archivedIn, archivedIn, archivedIn, List.filterMap_append, List.reverse_append]

/-- Where no example is accepted, none becomes known. -/
theorem known_eq_nil {seen : List (Event ι ο)} (h : ∀ e ∈ seen, e.example? = none) :
    known seen = [] := by
  rw [known, List.reverse_eq_nil_iff, List.filterMap_eq_nil_iff]
  exact h

theorem archivedIn_eq_nil {seen : List (Event ι ο)} (h : ∀ e ∈ seen, e.archived? = none) :
    archivedIn seen = [] := by
  rw [archivedIn, List.reverse_eq_nil_iff, List.filterMap_eq_nil_iff]
  exact h

theorem quiet_of_isLook {e : Event ι ο} (h : e.isLook = true) :
    e.isCoder = false ∧ e.example? = none ∧ e.archived? = none := by
  cases e with
  | coder => contradiction
  | accepted e => contradiction
  | archived iteration => contradiction
  | evaluated path inputs results => exact ⟨rfl, rfl, rfl⟩
  | missing path => exact ⟨rfl, rfl, rfl⟩
  | read path text => exact ⟨rfl, rfl, rfl⟩

/-- A round goes on. -/
theorem Passed.after {trace rest seen : List (Event ι ο)} (h : Passed task trace rest)
    (hseen : ∀ e ∈ seen, e.isCoder = false ∧ e.example? = none) :
    Passed task (seen ++ trace) rest := by
  obtain ⟨since, results, rfl, hsince, hall⟩ := h
  refine ⟨seen ++ since, results, (List.append_assoc _ _ _).symm, fun e he => ?_, hall⟩
  exact (List.mem_append.mp he).elim (hseen e) (hsince e)

/-- A streak lasts until the coder is called again. -/
theorem Streak.after {k : Nat} {trace seen : List (Event ι ο)} (h : Streak task args k trace)
    (hseen : ∀ e ∈ seen, e.isCoder = false) : Streak task args k (seen ++ trace) := by
  cases k with
  | zero => trivial
  | succ k =>
      obtain ⟨since, batch, round, rest, j, rfl, hsince, hrest⟩ := h
      refine ⟨seen ++ since, batch, round, rest, j, (List.append_assoc _ _ _).symm,
        fun e he => ?_, hrest⟩
      exact (List.mem_append.mp he).elim (hseen e) (hsince e)

theorem Ended.after {k : Nat} {trace seen : List (Event ι ο)} (h : Ended task args k trace)
    (hseen : ∀ e ∈ seen, e.isCoder = false) : Ended task args k (seen ++ trace) := by
  obtain ⟨since, round, rest, rfl, hsince, hrest⟩ := h
  refine ⟨seen ++ since, round, rest, (List.append_assoc _ _ _).symm, fun e he => ?_, hrest⟩
  exact (List.mem_append.mp he).elim (hseen e) (hsince e)

/-- A streak has every shorter one in it. -/
theorem Streak.mono {j k : Nat} {trace : List (Event ι ο)} (h : Streak task args k trace)
    (hjk : j ≤ k) : Streak task args j trace := by
  induction j generalizing k trace with
  | zero => trivial
  | succ j ih =>
      cases k with
      | zero => exact absurd hjk (Nat.not_succ_le_zero j)
      | succ k =>
          obtain ⟨since, batch, round, rest, i, htrace, hsince, hsize, hround, hrest⟩ := h
          exact ⟨since, batch, round, rest, i, htrace, hsince, hsize, hround,
            ih hrest (Nat.le_of_succ_le_succ hjk)⟩

/-! ## what probing changes -/

/-- The observed inputs are pairwise different, and all of them are remembered. -/
structure KeysOk (task : Task ι ο) (s : State ι ο) : Prop where
  nodup : (s.examples.map fun e => task.inputKey e.1).Nodup
  remembered : ∀ e ∈ s.examples, task.inputKey e.1 ∈ s.seenEquivalent

/-- Only the clock moves. -/
def Ticks (s s' : State ι ο) : Prop := ∃ clock, s' = { s with clock }

instance instTicks : IsPreorder (State ι ο) Ticks where
  refl s := ⟨s.clock, rfl⟩
  trans _ _ _ h₁ h₂ := by
    obtain ⟨_, rfl⟩ := h₁
    obtain ⟨c, rfl⟩ := h₂
    exact ⟨c, rfl⟩

/-- Time passes, and something is looked at. -/
def Looks (s s' : State ι ο) : Prop :=
  ∃ clock seen, s' = { s with clock, trace := seen ++ s.trace } ∧ ∀ e ∈ seen, e.isLook = true

instance instLooks : IsPreorder (State ι ο) Looks where
  refl s := ⟨s.clock, [], rfl, fun _ he => absurd he List.not_mem_nil⟩
  trans _ _ _ h₁ h₂ := by
    obtain ⟨_, seen₁, rfl, hlook₁⟩ := h₁
    obtain ⟨c, seen₂, rfl, hlook₂⟩ := h₂
    refine ⟨c, seen₂ ++ seen₁, by rw [List.append_assoc], fun e he => ?_⟩
    exact (List.mem_append.mp he).elim (hlook₂ e) (hlook₁ e)

theorem Ticks.looks (h : Ticks s s') : Looks s s' := by
  obtain ⟨c, rfl⟩ := h
  exact ⟨c, [], rfl, fun _ he => absurd he List.not_mem_nil⟩

theorem looks_note {event : Event ι ο} (h : event.isLook = true) :
    Looks s { s with trace := event :: s.trace } :=
  ⟨s.clock, [event], rfl, fun e he => by rw [List.mem_singleton.mp he]; exact h⟩

/-- Examples may join and the budget may run out; the rest stays. -/
structure Probes (task : Task ι ο) (s s' : State ι ο) : Prop where
  keys : KeysOk task s → KeysOk task s'
  stop : s'.stopReason = s.stopReason ∨ s'.stopReason = some .budgetExhausted
  nextBatch : s'.nextBatch = s.nextBatch
  consecutive : s'.consecutive = s.consecutive
  iteration : s'.iteration = s.iteration
  trace : ∃ seen, s'.trace = seen ++ s.trace ∧ s'.examples = s.examples ++ known seen ∧
    ∀ e ∈ seen, e.isCoder = false ∧ e.archived? = none
  archived : s'.archived = s.archived
  granted : s'.granted = s.granted

instance instProbes : IsPreorder (State ι ο) (Probes task) where
  refl s := ⟨id, .inl rfl, rfl, rfl, rfl,
    ⟨[], rfl, (List.append_nil _).symm, fun _ he => absurd he List.not_mem_nil⟩, rfl, rfl⟩
  trans a b c h₁ h₂ := by
    refine ⟨h₂.keys ∘ h₁.keys, ?_, h₂.nextBatch.trans h₁.nextBatch,
      h₂.consecutive.trans h₁.consecutive, h₂.iteration.trans h₁.iteration,
      ?_, h₂.archived.trans h₁.archived, h₂.granted.trans h₁.granted⟩
    · rcases h₂.stop with h | h
      · rw [h]
        exact h₁.stop
      · exact .inr h
    · obtain ⟨seen₁, htrace₁, hexamples₁, hseen₁⟩ := h₁.trace
      obtain ⟨seen₂, htrace₂, hexamples₂, hseen₂⟩ := h₂.trace
      refine ⟨seen₂ ++ seen₁, by rw [htrace₂, htrace₁, List.append_assoc], ?_, fun e he => ?_⟩
      · rw [hexamples₂, hexamples₁, known_append, List.append_assoc]
      · exact (List.mem_append.mp he).elim (hseen₂ e) (hseen₁ e)

theorem Looks.probes (h : Looks s s') : Probes task s s' := by
  obtain ⟨_, seen, rfl, hlook⟩ := h
  refine ⟨fun hk => ⟨hk.nodup, hk.remembered⟩, .inl rfl, rfl, rfl, rfl, ⟨seen, rfl, ?_, ?_⟩, rfl,
    rfl⟩
  · rw [known_eq_nil fun e he => (quiet_of_isLook (hlook e he)).2.1, List.append_nil]
  · exact fun e he => ⟨(quiet_of_isLook (hlook e he)).1, (quiet_of_isLook (hlook e he)).2.2⟩

theorem Ticks.probes (h : Ticks s s') : Probes task s s' := h.looks.probes

/-- An answer. -/
theorem ask_spec {α : Type} (f : Nat → α) {E : String → State ι ο → Prop} :
    Follows Ticks (ask f) s (fun a _ => a = f s.clock) E :=
  ⟨⟨s.clock + 1, rfl⟩, rfl⟩

/-- The answer and the state a question leaves. -/
theorem ask_at {α : Type} (f : Nat → α) {E : String → State ι ο → Prop} :
    Follows Ticks (ask f) s
      (fun a s' => a = f s.clock ∧ s' = { s with clock := s.clock + 1 }) E :=
  ⟨⟨s.clock + 1, rfl⟩, rfl, rfl⟩

/-- A part that only lets time pass. -/
theorem ticking {α : Type} {m : Recon ι ο α} {Q : α → State ι ο → Prop}
    (h : Follows Ticks m s Q (fun _ _ => True)) :
    Follows (Probes task) m s (fun a s' => Ticks s s' ∧ Q a s') (fun _ _ => True) :=
  (h.keep fun _ ht => ht.probes).mono (fun _ _ _ hq => hq) fun _ _ _ _ => trivial

/-- New examples: their keys differ and are not remembered yet. -/
structure Fresh (task : Task ι ο) (s : State ι ο) (batch : List (ι × ο)) : Prop where
  nodup : (batch.map fun e => task.inputKey e.1).Nodup
  new : ∀ e ∈ batch, task.inputKey e.1 ∉ s.seenEquivalent

theorem fresh_nil : Fresh task s [] :=
  ⟨List.nodup_nil, fun _ he => absurd he List.not_mem_nil⟩

/-- What is remembered does not change with time. -/
theorem Ticks.fresh {batch : List (ι × ο)} (h : Ticks s s') :
    Fresh task s' batch ↔ Fresh task s batch := by
  obtain ⟨_, rfl⟩ := h
  exact ⟨fun hf => ⟨hf.nodup, hf.new⟩, fun hf => ⟨hf.nodup, hf.new⟩⟩

/-! ## the generator and the hidden program -/

/-- **The generator's inputs that are kept are new**, and no more than asked for. -/
theorem drawRandom_spec {count : Nat} {inputs : List ι} {batch : List (ι × ο)} {keys : List String}
    {E : String → State ι ο → Prop} (hfresh : Fresh task s batch)
    (hkeys : ∀ e ∈ batch, task.inputKey e.1 ∈ keys) (hlen : batch.length < count) :
    Follows Ticks (drawRandom task env count inputs batch keys) s
      (fun drawn _ => Fresh task s drawn ∧ drawn.length ≤ count) E := by
  induction inputs generalizing s batch keys with
  | nil => exact .pure ⟨hfresh, Nat.le_of_lt hlen⟩
  | cons inp rest ih =>
      unfold drawRandom
      refine .readThen ?_
      dsimp only
      split
      · exact ih hfresh hkeys hlen
      rename_i hnew
      rw [not_or] at hnew
      refine .bind (ask_spec _) fun observed s₁ hticks _ => ?_
      cases observed with
      | none =>
          refine (ih (hticks.fresh.mpr hfresh) hkeys hlen).mono (fun drawn _ _ hd => ?_) fun _ _ _ he => he
          exact ⟨hticks.fresh.mp hd.1, hd.2⟩
      | some out =>
          have hgrown : Fresh task s (batch ++ [(inp, out)]) := by
            constructor
            · rw [List.map_append, List.nodup_append]
              refine ⟨hfresh.nodup, List.nodup_singleton _, fun a ha b hb he => ?_⟩
              obtain ⟨e, hmem, rfl⟩ := List.mem_map.mp ha
              rw [List.map_singleton, List.mem_singleton] at hb
              rw [hb] at he
              exact hnew.2 (he ▸ hkeys e hmem)
            · intro e he
              rcases List.mem_append.mp he with he | he
              · exact hfresh.new e he
              · rw [List.mem_singleton.mp he]
                exact hnew.1
          dsimp only
          split
          · rename_i hfull
            exact .pure ⟨hgrown, Nat.le_of_eq hfull⟩
          · rename_i hmore
            rw [List.length_append, List.length_singleton] at hmore
            refine (ih (hticks.fresh.mpr hgrown) ?_ ?_).mono (fun drawn _ _ hd => ?_) fun _ _ _ he => he
            · intro e he
              rcases List.mem_append.mp he with he | he
              · exact List.mem_cons_of_mem _ (hkeys e he)
              · rw [List.mem_singleton.mp he]
                exact List.mem_cons_self
            · rw [List.length_append, List.length_singleton]
              omega
            · exact ⟨hticks.fresh.mp hd.1, hd.2⟩

/-- What was observed of a proposal is observed of its inputs. -/
theorem observeAll_spec (inputs : List ι) {E : String → State ι ο → Prop} :
    Follows Ticks (observeAll env inputs) s
      (fun batch _ => ∀ b, batch = some b → b.map Prod.fst = inputs) E := by
  induction inputs generalizing s with
  | nil => exact .pure fun b hb => by rw [← Option.some.inj hb]; rfl
  | cons inp rest ih =>
      unfold observeAll
      refine .bind (ask_spec _) fun observed s₁ _ _ => ?_
      cases observed with
      | none => exact .pure fun b hb => by contradiction
      | some out =>
          refine .bind ih fun others s₂ _ hothers => .pure fun b hb => ?_
          obtain ⟨b', hb', rfl⟩ := Option.map_eq_some_iff.mp hb
          rw [List.map_cons, hothers b' hb']

/-! ## accepting a batch -/

/-- One new example joins. -/
theorem probes_push {e : ι × ο} {source : Source} (hnew : task.inputKey e.1 ∉ s.seenEquivalent) :
    Probes task s (s.push task e source) := by
  refine ⟨fun hk => ⟨?_, ?_⟩, .inl rfl, rfl, rfl, rfl,
    ⟨[.accepted e], rfl, rfl, fun event he => ?_⟩, rfl, rfl⟩
  · show ((s.examples ++ [e]).map _).Nodup
    rw [List.map_append, List.nodup_append]
    refine ⟨hk.nodup, List.nodup_singleton _, fun a ha b hb he => ?_⟩
    obtain ⟨known, hmem, rfl⟩ := List.mem_map.mp ha
    rw [List.map_singleton, List.mem_singleton] at hb
    rw [hb] at he
    exact hnew (he ▸ hk.remembered known hmem)
  · intro known hmem
    rcases List.mem_append.mp hmem with hmem | hmem
    · exact List.mem_cons_of_mem _ (hk.remembered known hmem)
    · rw [List.mem_singleton.mp hmem]
      exact List.mem_cons_self
  · rw [List.mem_singleton.mp he]
    exact ⟨rfl, rfl⟩

/-- What a request that succeeds did: exactly `n` examples were accepted. -/
def Added (n : Nat) (s s' : State ι ο) : Prop :=
  ∃ batch, s'.trace = acceptances batch ++ s.trace ∧ batch.length = n ∧
    s'.examples = s.examples ++ batch ∧ s'.stopReason = s.stopReason

theorem Ticks.added {n : Nat} {s₁ s₂ : State ι ο} (ht : Ticks s s₁) (h : Added n s₁ s₂) :
    Added n s s₂ := by
  obtain ⟨_, rfl⟩ := ht
  exact h

theorem Added.trans {m n : Nat} {s₁ s₂ : State ι ο} (h : Added m s s₁) (h' : Added n s₁ s₂) :
    Added (m + n) s s₂ := by
  obtain ⟨batch, htrace, hlen, hexamples, hstop⟩ := h
  obtain ⟨batch', htrace', hlen', hexamples', hstop'⟩ := h'
  refine ⟨batch ++ batch', ?_, ?_, ?_, hstop'.trans hstop⟩
  · rw [htrace', htrace, acceptances, acceptances, acceptances, List.map_append,
      List.reverse_append, List.append_assoc]
  · rw [List.length_append, hlen, hlen']
  · rw [hexamples', hexamples, List.append_assoc]

/-- **A batch is accepted**, example by example. -/
theorem accept_spec {batch : List (ι × ο)} {source : Source} (hfresh : Fresh task s batch) :
    Follows (Probes task) (accept task env batch source) s
      (fun _ s' => Added batch.length s s') (fun _ _ => True) := by
  let I : List (ι × ο) → State ι ο → Prop := fun done s' =>
    s'.examples = s.examples ++ done ∧
      (s'.trace = acceptances done ++ s.trace ∧ s'.stopReason = s.stopReason) ∧
      ∀ key ∈ s'.seenEquivalent, key ∈ s.seenEquivalent ∨ key ∈ done.map fun e => task.inputKey e.1
  unfold accept
  refine (Follows.forEach (I := I) (E := fun _ _ => True) batch ?_ ?_).mono
    (fun _ _ _ hI => ⟨batch, hI.2.1.1, rfl, hI.1, hI.2.1.2⟩) fun _ _ _ _ => trivial
  · intro done e rest s₁ hbatch hI
    have hnew : task.inputKey e.1 ∉ s₁.seenEquivalent := by
      intro hseen
      rcases hI.2.2 _ hseen with hold | hdone
      · exact hfresh.new e (by rw [hbatch]; simp) hold
      · have hnodup := hfresh.nodup
        rw [hbatch, List.map_append, List.nodup_append] at hnodup
        exact hnodup.2.2 _ hdone _ (by simp) rfl
    refine .bind (Q := fun _ s₂ => s₂ = s₁.push task e source)
      (.change (probes_push hnew) rfl) fun _ s₂ _ hs₂ => ?_
    have hI₂ : I (done ++ [e]) s₂ := by
      subst hs₂
      refine ⟨?_, ⟨?_, hI.2.1.2⟩, ?_⟩
      · show s₁.examples ++ [e] = _
        rw [hI.1, List.append_assoc]
      · show Event.accepted e :: s₁.trace = _
        rw [hI.2.1.1, acceptances, acceptances, List.map_append, List.reverse_append]
        rfl
      · intro key hkey
        rw [List.map_append, List.mem_append]
        rcases List.mem_cons.mp hkey with rfl | hkey
        · exact .inr (.inr (by simp))
        · rcases hI.2.2 key hkey with hold | hdone
          · exact .inl hold
          · exact .inr (.inl hdone)
    refine .bind (Q := fun _ s₃ => I (done ++ [e]) s₃) ?_ fun raised s₃ _ hI₃ => ?_
    · refine (ticking (ask_spec env.onExampleRaises)).mono (fun _ s₃ _ ht => ?_)
        fun _ _ _ he => he
      obtain ⟨⟨_, rfl⟩, -⟩ := ht
      exact hI₂
    · exact .raiseIf (fun _ => trivial) fun _ => hI₃
  · refine ⟨(List.append_nil _).symm, ⟨rfl, rfl⟩, fun key hkey => .inl hkey⟩

/-! ## the proposer -/

/-- Calling an agent lets time pass, or stops the run. -/
theorem callAgent_spec {α : Type} (reply : Nat → Reply α) :
    Follows (Probes task) (callAgent reply) s
      (fun _ s' => s'.stopReason.isSome ∨ Ticks s s') (fun _ _ => True) := by
  unfold callAgent
  refine .bind (ticking (ask_spec reply)) fun answer s₁ _ ht => ?_
  cases answer with
  | replied value => exact .pure (.inr ht.1)
  | raised => exact .raise trivial
  | budgetExhausted =>
      have hstop : Probes task s₁ { s₁ with stopReason := some .budgetExhausted } :=
        ⟨fun hk => ⟨hk.nodup, hk.remembered⟩, .inr rfl, rfl, rfl, rfl,
          ⟨[], rfl, (List.append_nil _).symm, fun _ he => absurd he List.not_mem_nil⟩, rfl, rfl⟩
      exact .bind (Q := fun _ s' => s'.stopReason.isSome = true) (.change hstop rfl)
        fun _ _ _ hs => .pure (.inl hs)

theorem inputKey_of_jsonable {p v : ι} (h : task.jsonable p = some v) :
    task.inputKey v = task.inputKey p := by
  rw [Task.inputKey, Task.inputKey, task.jsonable_idem p v h, h]

/-- The keys of a proposal all of whose inputs are JSON values. -/
theorem proposalKeys_eq {proposed : List ι} (h : ∀ p ∈ proposed, (task.jsonable p).isSome) :
    proposalKeys task proposed =
        (proposed.filterMap task.jsonable).map (fun v => some (task.inputKey v)) ∧
      (proposed.filterMap task.jsonable).length = proposed.length := by
  induction proposed with
  | nil => exact ⟨rfl, rfl⟩
  | cons p rest ih =>
      rw [List.forall_mem_cons] at h
      obtain ⟨v, hv⟩ := Option.isSome_iff_exists.mp h.1
      obtain ⟨hkeys, hlen⟩ := ih h.2
      rw [List.filterMap_cons, hv]
      constructor
      · rw [List.map_cons, ← hkeys, inputKey_of_jsonable hv, proposalKeys, List.map_cons, hv]
        rfl
      · rw [List.length_cons, List.length_cons, hlen]

/-- A proposal that repeats nothing is new. -/
theorem fresh_of_not_repeats {proposed : List ι} (h : repeats task s proposed = false)
    {batch : List (ι × ο)} (hb : batch.map Prod.fst = proposed.filterMap task.jsonable) :
    Fresh task s batch ∧ batch.length = proposed.length := by
  rw [repeats, List.any_eq_false] at h
  have hjson : ∀ p ∈ proposed, (task.jsonable p).isSome := by
    intro p hp
    cases hv : task.jsonable p with
    | some v => rfl
    | none =>
        have hnone : none ∈ proposalKeys task proposed := List.mem_map.mpr ⟨p, hp, by rw [hv]; rfl⟩
        exact absurd rfl (h none hnone)
  obtain ⟨hkeys, hlen⟩ := proposalKeys_eq hjson
  have hbatch : proposalKeys task proposed = (batch.map fun e => task.inputKey e.1).map some := by
    rw [hkeys, ← hb, List.map_map, List.map_map]
    rfl
  have hkey : ∀ key ∈ batch.map fun e => task.inputKey e.1,
      key ∉ s.seenEquivalent ∧ (proposalKeys task proposed).count (some key) ≤ 1 := by
    intro key hk
    have hsome := h (some key) (hbatch ▸ List.mem_map_of_mem hk)
    simpa using hsome
  refine ⟨⟨?_, fun e he => (hkey _ (List.mem_map_of_mem he)).1⟩, ?_⟩
  · rw [List.nodup_iff_count_le_one]
    intro key
    by_cases hk : key ∈ batch.map fun e => task.inputKey e.1
    · have := (hkey key hk).2
      rwa [hbatch, List.count_map_of_injective _ _ (Option.some_injective _)] at this
    · rw [List.count_eq_zero_of_not_mem hk]
      exact Nat.zero_le 1
  · rw [← hlen, ← hb, List.length_map]

/-- **The proposer's batch has exactly the requested size.** -/
theorem proposeInputs_spec (n attempts : Nat) :
    Follows (Probes task) (proposeInputs task env args n attempts) s
      (fun ok s' => ok = true → Added n s s') (fun _ _ => True) := by
  induction attempts generalizing s with
  | zero => exact .pure fun h => by contradiction
  | succ attempts ih =>
      unfold proposeInputs
      refine .bind (callAgent_spec env.propose) fun reply s₁ _ hs₁ => .readThen ?_
      split
      · exact .pure fun h => by contradiction
      rename_i hgoing
      have ht₁ := hs₁.resolve_left hgoing
      have hretry : ∀ {s₂ : State ι ο}, Ticks s s₂ → Follows (Probes task)
          (proposeInputs task env args n attempts) s₂ (fun ok s' => ok = true → Added n s s')
          (fun _ _ => True) := fun ht =>
        ih.mono (fun _ _ _ hq hok => ht.added (hq hok)) fun _ _ _ _ => trivial
      cases reply.join with
      | none => exact hretry ht₁
      | some proposed =>
          dsimp only
          split
          · exact hretry ht₁
          rename_i hfit
          simp only [Bool.or_eq_true, not_or, decide_eq_true_eq, not_not] at hfit
          have hrepeats := Bool.not_eq_true _ |>.mp hfit.1.2
          refine .bind (ticking (observeAll_spec _)) fun observed s₂ _ hobserved => ?_
          have ht₂ : Ticks s s₂ := trans_of Ticks ht₁ hobserved.1
          cases observed with
          | none => exact hretry ht₂
          | some batch =>
              obtain ⟨hfresh, hlen⟩ := fresh_of_not_repeats hrepeats (hobserved.2 batch rfl)
              have hfresh₂ := ht₂.fresh.mpr (ht₁.fresh.mp hfresh)
              rw [hfit.1.1] at hlen
              exact .bind (accept_spec hfresh₂) fun _ s₃ _ hs₃ => .pure fun _ =>
                ht₂.added (hlen ▸ hs₃)

/-- The random share and what is left make up the request. -/
theorem requestRandom_spec (n : Nat) :
    Follows (Probes task) (requestRandom task env args n) s
      (fun rest s' => ∃ drawn, drawn + rest = n ∧ Added drawn s s') (fun _ _ => True) := by
  have hnone : Added 0 s s := ⟨[], rfl, rfl, (List.append_nil _).symm, rfl⟩
  unfold requestRandom
  split
  · exact .pure ⟨0, Nat.zero_add n, hnone⟩
  split
  · exact .pure ⟨0, Nat.zero_add n, hnone⟩
  rename_i hshare
  refine .readThen (.bind (ticking (ask_spec _)) fun drawn s₁ _ ht₁ => ?_)
  obtain ⟨⟨_, rfl⟩, -⟩ := ht₁
  cases drawn with
  | none => exact .raise trivial
  | some inputs =>
      refine .bind (ticking (drawRandom_spec fresh_nil (fun _ he => absurd he List.not_mem_nil)
        (Nat.pos_of_ne_zero hshare))) fun batch s₂ _ hbatch => ?_
      obtain ⟨ht₂, hfresh, hlen⟩ := hbatch
      refine .bind (accept_spec (ht₂.fresh.mpr hfresh)) fun _ s₃ _ hs₃ => .pure ?_
      have hle := args.share.of_le n
      obtain ⟨_, rfl⟩ := ht₂
      exact ⟨batch.length, by omega, hs₃⟩

/-- **A request that succeeds adds exactly what it asked for**, whatever the
random share brought. -/
theorem requestExamples_spec (n : Nat) :
    Follows (Probes task) (requestExamples task env args n) s
      (fun ok s' => ok = true → Added n s s') (fun _ _ => True) := by
  unfold requestExamples
  refine .bind (requestRandom_spec n) fun rest s₁ _ hs₁ => ?_
  obtain ⟨drawn, rfl, hadded⟩ := hs₁
  split
  · rename_i hrest
    rw [hrest]
    exact .pure fun _ => hadded
  · exact (proposeInputs_spec rest args.proposeAttempts).mono
      (fun ok s₂ _ hq hok => hadded.trans (hq hok)) fun _ _ _ _ => trivial

/-! ## judging a candidate -/

/-- A candidate fails what it does not pass. -/
theorem judge_spec (examples : List (ι × ο)) (results : List (Option ο)) :
    Follows Ticks (judge task examples results) s
      (fun fails s' => s' = s ∧ (results.length = examples.length →
        fails.length + task.passed examples results = examples.length ∧
        (fails = [] → List.Forall₂ (fun e r => task.passes e r = true) examples results)))
      (fun _ _ => True) := by
  induction examples generalizing results with
  | nil =>
      refine .pure ⟨rfl, fun hlen => ?_⟩
      rw [List.length_eq_zero_iff.mp hlen]
      exact ⟨rfl, fun _ => .nil⟩
  | cons e examples ih =>
      cases results with
      | nil => exact .pure ⟨rfl, fun hlen => by cases hlen⟩
      | cons r results =>
          have hcount : task.passed (e :: examples) (r :: results) =
              task.passed examples results + if task.passes e r = true then 1 else 0 := by
            rw [Task.passed, List.zip_cons_cons, List.countP_cons, Task.passed]
          cases r with
          | none =>
              have hfail : task.passes e none = false := rfl
              refine .bind (ih results) fun fails s₁ _ hs₁ => .pure ⟨hs₁.1, fun hlen => ?_⟩
              obtain ⟨hsum, -⟩ := hs₁.2 (Nat.succ.inj hlen)
              rw [hcount, hfail, if_neg Bool.false_ne_true, List.length_cons, List.length_cons]
              exact ⟨by omega, fun hnil => by cases hnil⟩
          | some out =>
              unfold judge
              cases hexpected : task.jsonableOutput e.2 with
              | none => exact .raise trivial
              | some expected =>
                  have hpasses : task.passes e (some out) = task.outputsMatch out expected := by
                    simp only [Task.passes, hexpected]
                  refine .bind (ih results) fun fails s₁ _ hs₁ => .pure ⟨hs₁.1, fun hlen => ?_⟩
                  obtain ⟨hsum, hall⟩ := hs₁.2 (Nat.succ.inj hlen)
                  rw [hcount, hpasses]
                  split
                  · rename_i hmatch
                    rw [List.length_cons]
                    exact ⟨by omega, fun hnil => .cons (hpasses.trans hmatch) (hall hnil)⟩
                  · rw [List.length_cons, List.length_cons]
                    exact ⟨by omega, fun hnil => by cases hnil⟩

/-- What is seen of a program that is looked at: it is missing, or the evaluator answers. -/
def look (path : Path) (examples : List (ι × ο)) : Option (List (Option ο)) → Event ι ο
  | none => .missing path
  | some results => .evaluated path (examples.map Prod.fst) results

/-- The failures of a program; there is one where it is missing. -/
def Task.failed (task : Task ι ο) (examples : List (ι × ο)) : Option (List (Option ο)) → Nat
  | none => 1
  | some results => examples.length - task.passed examples results

theorem isLook_look (path : Path) (examples : List (ι × ο)) (verdict : Option (List (Option ο))) :
    (look path examples verdict).isLook = true := by
  cases verdict <;> rfl

/-- **A program's failures are what was seen of it**: none means that the evaluator's answer passes
every known example. -/
theorem failures_spec (path : Path) :
    Follows Looks (failures task env path) s
      (fun fails s' => ∃ clock verdict,
        s' = { s with clock, trace := look path s.examples verdict :: s.trace } ∧
        fails.length = task.failed s.examples verdict ∧
        (fails = [] → ∃ results, verdict = some results ∧
          List.Forall₂ (fun e r => task.passes e r = true) s.examples results))
      (fun _ _ => True) := by
  unfold failures
  refine .bind ((ask_at _).coarsen fun _ ht => ht.looks) fun present s₁ _ hs₁ => ?_
  obtain ⟨-, rfl⟩ := hs₁
  cases present with
  | false =>
      refine .bind (Q := fun _ s' => s' = { s with
        clock := s.clock + 1, trace := Event.missing path :: s.trace })
        (.change (looks_note rfl) rfl) fun _ s₂ _ hs₂ => .pure ?_
      exact ⟨s.clock + 1, none, hs₂, rfl, fun hnil => by cases hnil⟩
  | true =>
      refine .readThen (.bind ((ask_at _).coarsen fun _ ht => ht.looks) fun evaluated s₂ _ hs₂ => ?_)
      obtain ⟨-, rfl⟩ := hs₂
      cases evaluated with
      | none => exact .raise trivial
      | some results =>
          refine .bind (Q := fun _ s' => s' = { s with
            clock := s.clock + 1 + 1
            trace := Event.evaluated path (s.examples.map Prod.fst) results :: s.trace })
            (.change (looks_note rfl) rfl) fun _ s₃ _ hs₃ => ?_
          obtain rfl := hs₃
          dsimp only
          split
          · exact .raise trivial
          rename_i hlen
          refine ((judge_spec s.examples results).coarsen fun _ ht => ht.looks).mono
            (fun fails s₄ _ hq => ?_) fun _ _ _ he => he
          obtain ⟨rfl, hjudged⟩ := hq
          obtain ⟨hsum, hall⟩ := hjudged (not_not.mp hlen)
          refine ⟨s.clock + 1 + 1, some results, rfl, ?_, fun hnil => ⟨results, rfl, hall hnil⟩⟩
          rw [Task.failed]
          omega

/-- Reading a file is seen. -/
theorem readText_spec (path : Path) :
    Follows Looks (readText env path) s
      (fun text s' => ∃ clock, s' = { s with clock, trace := .read path text :: s.trace })
      (fun _ _ => True) := by
  unfold readText
  refine .bind ((ask_at _).coarsen fun _ ht => ht.looks) fun answer s₁ _ hs₁ => ?_
  obtain ⟨-, rfl⟩ := hs₁
  cases answer with
  | none => exact .raise trivial
  | some text =>
      refine .bind (Q := fun _ s' => s' = { s with
        clock := s.clock + 1, trace := Event.read path text :: s.trace })
        (.change (looks_note rfl) rfl) fun _ s₂ _ hs₂ => .pure ⟨s.clock + 1, hs₂⟩

/-! ## the invariant -/

/-- The size of the `k`-th batch. -/
def Args.batchSize (args : Args) (k : Nat) : Nat := args.initialBatch + k * args.batchStep

/-- **What holds at every moment of a run**, at most `bound` rounds into it. -/
structure Safe (task : Task ι ο) (args : Args) (bound : Nat) (s : State ι ο) : Prop where
  keys : KeysOk task s
  known : s.examples = known s.trace
  archived : s.archived = archivedIn s.trace
  granted : s.granted =
    (List.range s.granted.length).map fun k => (args.batchSize k, args.batchSize k)
  coder : s.trace.countP Event.isCoder = s.iteration
  rounds : s.iteration ≤ bound
  early : s.stopReason = some .earlyStop → Ended task args args.earlyStop s.trace

/-- What holds between two rounds. -/
structure Running (task : Task ι ο) (args : Args) (bound : Nat) (s : State ι ο) : Prop extends
    Safe task args bound s where
  nextBatch : s.stopReason = none → s.nextBatch = args.batchSize s.granted.length
  streak : s.stopReason = none → Streak task args s.consecutive s.trace

/-- A candidate that passed, before its promotion is decided. -/
structure Passing (task : Task ι ο) (args : Args) (bound : Nat) (s : State ι ο) : Prop extends
    Safe task args bound s where
  going : s.stopReason = none
  nextBatch : s.nextBatch = args.batchSize s.granted.length
  ended : ∃ rest, Passed task s.trace rest ∧ Streak task args s.consecutive rest

/-- What is looked at, accepted or archived after the coder's call does not call it. -/
theorem countP_isCoder {seen trace : List (Event ι ο)} (h : ∀ e ∈ seen, e.isCoder = false) :
    (seen ++ trace).countP Event.isCoder = trace.countP Event.isCoder := by
  rw [List.countP_append, List.countP_eq_zero.mpr fun e he => Bool.not_eq_true _ ▸ h e he,
    Nat.zero_add]

theorem Safe.probes (h : Safe task args bound s) (hp : Probes task s s') :
    Safe task args bound s' := by
  obtain ⟨seen, htrace, hexamples, hseen⟩ := hp.trace
  constructor
  · exact hp.keys h.keys
  · rw [htrace, hexamples, known_append, h.known]
  · rw [htrace, hp.archived, archivedIn_append, archivedIn_eq_nil fun e he => (hseen e he).2,
      List.append_nil]
    exact h.archived
  · rw [hp.granted]
    exact h.granted
  · rw [htrace, hp.iteration, countP_isCoder fun e he => (hseen e he).1]
    exact h.coder
  · rw [hp.iteration]
    exact h.rounds
  · intro hearly
    rcases hp.stop with hstop | hstop
    · rw [htrace]
      exact (h.early (hstop ▸ hearly)).after fun e he => (hseen e he).1
    · rw [hstop] at hearly
      contradiction

theorem Running.looks (h : Running task args bound s) (hl : Looks s s') :
    Running task args bound s' := by
  refine { h.toSafe.probes hl.probes with nextBatch := ?_, streak := ?_ }
  · obtain ⟨_, _, rfl, -⟩ := hl
    exact h.nextBatch
  · obtain ⟨_, seen, rfl, hseen⟩ := hl
    exact fun hgoing => (h.streak hgoing).after fun e he => (quiet_of_isLook (hseen e he)).1

/-! ## granting -/

/-- A granted batch: its examples, and nothing else of the protocol. -/
structure Granted (task : Task ι ο) (n : Nat) (s s' : State ι ο) : Prop where
  probes : Probes task s { s' with granted := s.granted }
  granted : s'.granted = s.granted ++ [(n, n)]
  trace : ∃ batch, s'.trace = acceptances batch ++ s.trace ∧ batch.length = n
  stop : s'.stopReason = s.stopReason

/-- A batch that was refused: the run stops, and not early. -/
structure Refused (task : Task ι ο) (s s' : State ι ο) : Prop where
  probes : Probes task s { s' with stopReason := s.stopReason }
  stop : s.stopReason = none →
    s'.stopReason = some .budgetExhausted ∨ s'.stopReason = some .proposerFailed

/-- **A batch is granted as it was asked for**, or the run stops. -/
theorem grant_spec (n : Nat) :
    Meets (grant task env args n) s
      (fun ok s' => if ok then Granted task n s s' else Refused task s s')
      (fun _ s' => Probes task s s') := by
  unfold grant
  rw [meets_bind, meets_read, meets_bind]
  refine Meets.mono (requestExamples_spec n) ?_ fun _ _ he => he.1
  intro ok s₁ hs₁
  obtain ⟨hp, hadded⟩ := hs₁
  cases ok with
  | true =>
      obtain ⟨batch, htrace, hlen, hexamples, hstop⟩ := hadded rfl
      have hsize : s₁.examples.length - s.examples.length = n := by
        rw [hexamples, List.length_append]
        omega
      refine ⟨⟨fun hk => ⟨(hp.keys hk).nodup, (hp.keys hk).remembered⟩, hp.stop, hp.nextBatch,
        hp.consecutive, hp.iteration, hp.trace, hp.archived, rfl⟩, ?_, ⟨batch, htrace, hlen⟩, hstop⟩
      show s₁.granted ++ [(n, _)] = _
      rw [hp.granted, hsize]
  | false =>
      refine ⟨⟨fun hk => ⟨(hp.keys hk).nodup, (hp.keys hk).remembered⟩, .inl rfl, hp.nextBatch,
        hp.consecutive, hp.iteration, hp.trace, hp.archived, hp.granted⟩, fun hnone => ?_⟩
      show s₁.stopReason.or _ = _ ∨ s₁.stopReason.or _ = _
      rcases hp.stop with hstop | hstop
      · rw [hstop, hnone]
        exact .inr rfl
      · rw [hstop]
        exact .inl rfl

/-- The next batch is granted. -/
theorem Safe.granted_next {n : Nat} (h : Safe task args bound s) (hg : Granted task n s s')
    (hn : n = args.batchSize s.granted.length) (hgoing : s.stopReason = none) :
    Safe task args bound s' := by
  have hlen : s'.granted.length = s.granted.length + 1 := by
    rw [hg.granted, List.length_append, List.length_singleton]
  have hsafe := h.probes hg.probes
  constructor
  · exact ⟨hsafe.keys.nodup, hsafe.keys.remembered⟩
  · exact hsafe.known
  · exact hsafe.archived
  · rw [hlen, List.range_succ, List.map_append, ← h.granted, hg.granted, hn]
    rfl
  · exact hsafe.coder
  · exact hsafe.rounds
  · intro hearly
    rw [hg.stop, hgoing] at hearly
    contradiction

theorem Safe.refused (h : Safe task args bound s) (hr : Refused task s s')
    (hgoing : s.stopReason = none) : Safe task args bound s' ∧ s'.stopReason ≠ none := by
  have hstop := hr.stop hgoing
  have hsafe := h.probes hr.probes
  refine ⟨{ hsafe with
    keys := ⟨hsafe.keys.nodup, hsafe.keys.remembered⟩
    early := fun hearly => ?_ }, fun hnone => ?_⟩
  · rw [hearly] at hstop
    rcases hstop with hstop | hstop <;> cases hstop
  · rw [hnone] at hstop
    rcases hstop with hstop | hstop <;> cases hstop

/-- **The next batch has the next size**, and extends the streak. -/
theorem grantNext_spec (h : Safe task args bound s) (hgoing : s.stopReason = none)
    (hnext : s.nextBatch = args.batchSize s.granted.length)
    (hstreak : ∀ batch j, batch.length = args.batchSize j →
      Streak task args s.consecutive (acceptances batch ++ s.trace)) :
    Meets (grantNext task env args) s (fun _ s' => Running task args bound s')
      (fun _ s' => Safe task args bound s') := by
  unfold grantNext
  rw [meets_bind, meets_read, meets_bind]
  refine (grant_spec s.nextBatch).mono ?_ fun _ s' hp => h.probes hp
  intro ok s₁ hs₁
  cases ok with
  | false =>
      obtain ⟨hsafe, hstop⟩ := h.refused hs₁ hgoing
      exact { hsafe with
        nextBatch := fun hnone => absurd hnone hstop
        streak := fun hnone => absurd hnone hstop }
  | true =>
      have hg : Granted task s.nextBatch s s₁ := hs₁
      have hsafe := h.granted_next hg hnext hgoing
      have hsame : s₁.nextBatch = s.nextBatch := hg.probes.nextBatch
      have hcount : s₁.consecutive = s.consecutive := hg.probes.consecutive
      have hrunning : Running task args bound
          { s₁ with nextBatch := s₁.nextBatch + args.batchStep } := by
        refine { hsafe with
          keys := ⟨hsafe.keys.nodup, hsafe.keys.remembered⟩
          nextBatch := ?_
          streak := ?_ }
        · intro _
          show s₁.nextBatch + args.batchStep = args.batchSize s₁.granted.length
          rw [hsame, hnext, hg.granted, List.length_append, List.length_singleton,
            Args.batchSize, Args.batchSize, Nat.succ_mul, Nat.add_assoc]
        · intro _
          obtain ⟨batch, htrace, hlen⟩ := hg.trace
          show Streak task args s₁.consecutive s₁.trace
          rw [hcount, htrace]
          exact hstreak batch _ (hlen.trans hnext)
      show Meets (do
        change fun s => { s with nextBatch := s.nextBatch + args.batchStep }
        let _ ← failures task env .program) s₁ _ _
      rw [meets_bind, meets_change, meets_bind]
      refine Meets.mono (failures_spec .program) ?_ fun _ s₂ hs₂ => ?_
      · exact fun _ s₂ hs₂ => hrunning.looks hs₂.1
      · exact (hrunning.looks hs₂.1).toSafe

/-! ## rounds -/

/-- Counters of the gates change; the candidate still passes. -/
theorem Passing.recount (h : Passing task args bound s) {consecutive memorisation complexity : Nat}
    {misses : Finset String → Nat} (hc : consecutive ≤ s.consecutive) :
    Passing task args bound { s with
      consecutive
      memorisationRounds := memorisation
      complexityRounds := complexity
      gateMisses := misses } := by
  obtain ⟨rest, hpassed, hstreak⟩ := h.ended
  exact { h.toSafe with
    keys := ⟨h.keys.nodup, h.keys.remembered⟩
    going := h.going
    nextBatch := h.nextBatch
    ended := ⟨rest, hpassed, hstreak.mono hc⟩ }

/-- A candidate that passed and is not counted gets its batch. -/
theorem Passing.uncounted (h : Passing task args bound s) (hzero : s.consecutive = 0) :
    Meets (grantNext task env args) s (fun _ s' => Running task args bound s')
      (fun _ s' => Safe task args bound s') := by
  refine grantNext_spec h.toSafe h.going h.nextBatch fun batch j _ => ?_
  rw [hzero]
  trivial

/-- A candidate that is counted ends the run early, or gets its batch. -/
theorem Passing.counted (h : Passing task args bound s) :
    Meets (do
        let s ← read
        if args.earlyStop ≤ s.consecutive then
          change fun s => { s with stopReason := some .earlyStop }
        else grantNext task env args : Recon ι ο Unit) { s with consecutive := s.consecutive + 1 }
      (fun _ s' => Running task args bound s') (fun _ s' => Safe task args bound s') := by
  obtain ⟨rest, hpassed, hstreak⟩ := h.ended
  rw [meets_bind, meets_read]
  split
  · rename_i hstop
    change args.earlyStop ≤ s.consecutive + 1 at hstop
    rw [meets_change]
    refine { h.toSafe with keys := ⟨h.keys.nodup, h.keys.remembered⟩, early := ?_, nextBatch := ?_,
                           streak := ?_ }
    · intro _
      exact ⟨[], s.trace, rest, rfl, fun _ he => absurd he List.not_mem_nil, hpassed,
        hstreak.mono (by omega)⟩
    · intro hnone
      cases hnone
    · intro hnone
      cases hnone
  · refine grantNext_spec { h.toSafe with keys := ⟨h.keys.nodup, h.keys.remembered⟩ } h.going
      h.nextBatch fun batch j hlen => ?_
    exact ⟨[], batch, s.trace, rest, j, rfl, fun _ he => absurd he List.not_mem_nil, hlen, hpassed,
      hstreak⟩

/-- **A promotion is counted or blocked**, and either stops the run or gets a batch. -/
theorem promote_spec (h : Passing task args bound s) (miss : Finset String) :
    Meets (promote task env args miss) s (fun _ s' => Running task args bound s')
      (fun _ s' => Safe task args bound s') := by
  unfold promote
  rw [meets_bind, meets_change, countPromotion]
  split
  · exact h.counted
  dsimp only
  split
  · have hzero : Passing task args bound { s with
        gateMisses := fun m => if m = miss then s.gateMisses miss + 1 else s.gateMisses m
        consecutive := 0 } := h.recount (Nat.zero_le _)
    rw [meets_bind, meets_read, if_neg (Nat.not_le_of_lt args.earlyStop_pos)]
    exact hzero.uncounted rfl
  · have hmiss : Passing task args bound { s with
        gateMisses := fun m => if m = miss then s.gateMisses miss + 1 else s.gateMisses m } :=
      h.recount (Nat.le_refl _)
    exact hmiss.counted

/-- A candidate that is too complex gets a batch that is not counted, for a while. -/
theorem afterMemorisation_spec (h : Passing task args bound s) (source : String)
    (miss : Finset String) :
    Meets (afterMemorisation task env args source miss) s (fun _ s' => Running task args bound s')
      (fun _ s' => Safe task args bound s') := by
  unfold afterMemorisation
  split
  · rw [meets_bind, meets_change, meets_bind, meets_read]
    have hcounted : Passing task args bound { s with complexityRounds := s.complexityRounds + 1 } :=
      h.recount (Nat.le_refl _)
    split
    · rw [meets_bind, meets_change]
      have hzero : Passing task args bound
          { s with complexityRounds := s.complexityRounds + 1, consecutive := 0 } :=
        h.recount (Nat.zero_le _)
      exact hzero.uncounted rfl
    · exact promote_spec hcounted miss
  · exact promote_spec h miss

/-- A candidate that has its inputs by heart is sent back, for a while. -/
theorem passed_spec (h : Passing task args bound s) (source : String) (miss : Finset String)
    (memorised : Nat) :
    Meets (passed task env args source miss memorised) s (fun _ s' => Running task args bound s')
      (fun _ s' => Safe task args bound s') := by
  unfold passed
  split
  · rw [meets_bind, meets_change, meets_bind, meets_read]
    have hzero : Passing task args bound
        { s with consecutive := 0, memorisationRounds := s.memorisationRounds + 1 } :=
      h.recount (Nat.zero_le _)
    split
    · rw [meets_pure]
      exact { hzero.toSafe with
        nextBatch := fun _ => hzero.nextBatch
        streak := fun _ => trivial }
    · rw [meets_bind, meets_change]
      have hreset : Passing task args bound { s with consecutive := 0, memorisationRounds := 0 } :=
        h.recount (Nat.zero_le _)
      exact afterMemorisation_spec hreset source miss
  · exact afterMemorisation_spec h source miss

/-- A round whose coder was called: `rest` is the trace before. -/
structure Called (task : Task ι ο) (args : Args) (bound : Nat) (s : State ι ο) : Prop extends
    Safe task args bound s where
  going : s.stopReason = none
  nextBatch : s.nextBatch = args.batchSize s.granted.length
  called : ∃ rest, s.trace = .coder :: rest ∧ Streak task args s.consecutive rest

theorem Called.ticks (h : Called task args bound s) (ht : Ticks s s') :
    Called task args bound s' := by
  obtain ⟨clock, rfl⟩ := ht
  exact { h.toSafe with
    keys := ⟨h.keys.nodup, h.keys.remembered⟩
    going := h.going
    nextBatch := h.nextBatch
    called := h.called }

/-- A round whose program was judged: where it failed nothing, it passed. -/
structure Judged (task : Task ι ο) (args : Args) (bound : Nat) (passing : Prop) (s : State ι ο) :
    Prop extends Safe task args bound s where
  going : s.stopReason = none
  nextBatch : s.nextBatch = args.batchSize s.granted.length
  judged : passing → ∃ rest, Passed task s.trace rest ∧ Streak task args s.consecutive rest

/-- The verdict on the program. -/
theorem Called.judge (h : Called task args bound s) {fails : List (Fail ι)} {clock : Nat}
    {verdict : Option (List (Option ο))}
    (hs : s' = { s with clock, trace := look .program s.examples verdict :: s.trace })
    (hpass : fails = [] → ∃ results, verdict = some results ∧
      List.Forall₂ (fun e r => task.passes e r = true) s.examples results) :
    Judged task args bound (fails = []) s' := by
  have hsafe : Safe task args bound s' := by
    rw [hs]
    exact h.toSafe.probes (Looks.probes ⟨clock, [_], rfl, fun e he => by
      rw [List.mem_singleton.mp he]
      exact isLook_look _ _ _⟩)
  subst hs
  refine { hsafe with going := h.going, nextBatch := h.nextBatch, judged := fun hnil => ?_ }
  obtain ⟨rest, htrace, hstreak⟩ := h.called
  obtain ⟨results, rfl, hall⟩ := hpass hnil
  have hknown : s.examples = known rest := by
    rw [h.known, htrace]
    exact (known_append [.coder] rest).trans (List.append_nil _)
  refine ⟨rest, ⟨[], results, ?_, fun _ he => absurd he List.not_mem_nil, hknown ▸ hall⟩, hstreak⟩
  show look .program s.examples (some results) :: s.trace = _
  rw [look, htrace, hknown]
  rfl

theorem Judged.looks {passing : Prop} (h : Judged task args bound passing s) (hl : Looks s s') :
    Judged task args bound passing s' := by
  have hsafe := h.toSafe.probes hl.probes
  obtain ⟨_, seen, rfl, hseen⟩ := hl
  refine { hsafe with going := h.going, nextBatch := h.nextBatch, judged := fun hpass => ?_ }
  obtain ⟨rest, hpassed, hstreak⟩ := h.judged hpass
  exact ⟨rest, hpassed.after fun e he =>
    ⟨(quiet_of_isLook (hseen e he)).1, (quiet_of_isLook (hseen e he)).2.1⟩, hstreak⟩

/-- **The program is archived** where it is there. -/
theorem archive_spec {passing : Prop} (h : Judged task args bound passing s) (present : Bool) :
    Meets (archive env present) s (fun _ s' => Judged task args bound passing s')
      (fun _ s' => Safe task args bound s') := by
  unfold archive
  cases present with
  | false => exact h
  | true =>
      have harchived : Judged task args bound passing { s with
          archived := s.archived ++ [s.iteration]
          trace := .archived s.iteration :: s.trace } := by
        refine { h.toSafe with
          keys := ⟨h.keys.nodup, h.keys.remembered⟩
          known := ?_
          archived := ?_
          coder := ?_
          early := fun hearly => ?_
          going := h.going
          nextBatch := h.nextBatch
          judged := fun hpass => ?_ }
        · exact h.known.trans ((known_append [.archived s.iteration] s.trace).trans
            (List.append_nil _)).symm
        · show s.archived ++ [s.iteration] = _
          rw [h.archived]
          exact (archivedIn_append [.archived s.iteration] s.trace).symm
        · show (Event.archived s.iteration :: s.trace).countP Event.isCoder = _
          rw [List.countP_cons_of_neg Bool.false_ne_true]
          exact h.coder
        · change s.stopReason = _ at hearly
          rw [h.going] at hearly
          cases hearly
        · obtain ⟨rest, hpassed, hstreak⟩ := h.judged hpass
          have hseen : ∀ e ∈ [(.archived s.iteration : Event ι ο)], e.isCoder = false ∧
              e.example? = none := by
            intro e he
            rw [List.mem_singleton.mp he]
            exact ⟨rfl, rfl⟩
          exact ⟨rest, hpassed.after hseen, hstreak⟩
      show Meets (do
        change fun s => { s with
          archived := s.archived ++ [s.iteration]
          trace := .archived s.iteration :: s.trace }
        readText env .program) s _ _
      rw [meets_bind, meets_change]
      exact Meets.mono (readText_spec .program) (fun _ _ hq => harchived.looks hq.1)
        fun _ _ he => (harchived.looks he.1).toSafe

/-- **A judged candidate is promoted or sent back.** -/
theorem settleRound_spec {fails : List (Fail ι)} (h : Judged task args bound (fails = []) s)
    (source : String) :
    Meets (settleRound task env args fails source) s (fun _ s' => Running task args bound s')
      (fun _ s' => Safe task args bound s') := by
  unfold settleRound
  rw [meets_bind, meets_read, meets_bind]
  refine Meets.mono (ask_at (E := fun _ _ => False) _) ?_ fun _ _ hf => hf.2.elim
  intro tokens s₁ hs₁
  have hasked := h.looks (Ticks.looks hs₁.1)
  obtain ⟨-, -, rfl⟩ := hs₁
  split
  · rw [meets_change]
    refine { hasked.toSafe with
      keys := ⟨h.keys.nodup, h.keys.remembered⟩
      early := ?_
      nextBatch := ?_
      streak := ?_ }
    · intro hearly
      cases hearly
    · intro hnone
      cases hnone
    · intro hnone
      cases hnone
  split
  · rw [meets_change]
    exact { hasked.toSafe with
      keys := ⟨h.keys.nodup, h.keys.remembered⟩
      nextBatch := fun _ => h.nextBatch
      streak := fun _ => trivial }
  · rename_i hpassed
    have hnil : fails = [] := by simpa using hpassed
    have hpassing : Passing task args bound { s with clock := s.clock + 1 } :=
      { hasked.toSafe with
        keys := ⟨h.keys.nodup, h.keys.remembered⟩
        going := h.going
        nextBatch := h.nextBatch
        ended := hasked.judged hnil }
    exact passed_spec hpassing _ _ _

/-- **One round keeps the invariant.** -/
theorem iterate_spec (h : Running task args bound s) (hgoing : s.stopReason = none) :
    Meets (iterate task env args) s (fun _ s' => Running task args (bound + 1) s')
      (fun _ s' => Safe task args (bound + 1) s') := by
  unfold iterate
  rw [meets_bind, meets_change, meets_bind]
  let s₁ : State ι ο := { s with iteration := s.iteration + 1, trace := .coder :: s.trace }
  have hcalled : Called task args (bound + 1) s₁ := by
    refine { h.toSafe with
      keys := ⟨h.keys.nodup, h.keys.remembered⟩
      known := ?_
      archived := ?_
      coder := ?_
      rounds := Nat.succ_le_succ h.rounds
      early := ?_
      going := hgoing
      nextBatch := h.nextBatch hgoing
      called := ⟨s.trace, rfl, h.streak hgoing⟩ }
    · exact h.known.trans ((known_append [.coder] s.trace).trans (List.append_nil _)).symm
    · exact h.archived.trans ((archivedIn_append [.coder] s.trace).trans (List.append_nil _)).symm
    · show (Event.coder :: s.trace).countP Event.isCoder = s.iteration + 1
      rw [List.countP_cons_of_pos rfl, h.coder]
    · intro hearly
      change s.stopReason = _ at hearly
      rw [hgoing] at hearly
      cases hearly
  refine Meets.mono (callAgent_spec env.code) ?_ fun _ s₂ hs₂ => hcalled.toSafe.probes hs₂.1
  intro _ s₂ hs₂
  rw [meets_bind, meets_read]
  split
  · rename_i hstop
    have hsome : s₂.stopReason ≠ none := Option.isSome_iff_ne_none.mp hstop
    exact { hcalled.toSafe.probes hs₂.1 with
      nextBatch := fun hnone => absurd hnone hsome
      streak := fun hnone => absurd hnone hsome }
  rename_i hrunning
  have hcalled₂ := hcalled.ticks (hs₂.2.resolve_left hrunning)
  rw [meets_bind]
  refine Meets.mono (failures_spec .program) ?_ fun _ s₃ hs₃ => hcalled₂.toSafe.probes hs₃.1.probes
  intro fails s₃ hs₃
  obtain ⟨-, clock, verdict, hs₃, -, hpass⟩ := hs₃
  have hjudged := hcalled₂.judge hs₃ hpass
  rw [meets_bind]
  refine Meets.mono (ask_spec (E := fun _ _ => False) _) ?_ fun _ _ hf => hf.2.elim
  intro present s₄ hs₄
  rw [meets_bind]
  exact Meets.mono (archive_spec (hjudged.looks (Ticks.looks hs₄.1)) present)
    (fun source _ hs₅ => settleRound_spec hs₅ source) fun _ _ he => he

theorem Safe.mono {more : Nat} (h : Safe task args bound s) (hle : bound ≤ more) :
    Safe task args more s := { h with rounds := h.rounds.trans hle }

/-- **The loop keeps the invariant** for as many rounds as remain. -/
theorem iterations_spec (remaining : Nat) (h : Running task args bound s) :
    Meets (iterations task env args remaining) s
      (fun _ s' => Running task args (bound + remaining) s')
      (fun _ s' => Safe task args (bound + remaining) s') := by
  induction remaining generalizing bound s with
  | zero => exact h
  | succ remaining ih =>
      have hone : bound + 1 + remaining = bound + (remaining + 1) := by omega
      unfold iterations
      rw [meets_bind, meets_read]
      split
      · exact { h.toSafe.mono (Nat.le_add_right _ _) with
          nextBatch := h.nextBatch
          streak := h.streak }
      rename_i hgoing
      rw [Bool.not_eq_true, Option.isSome_eq_false_iff, Option.isNone_iff_eq_none] at hgoing
      rw [meets_bind]
      refine (iterate_spec h hgoing).mono ?_ fun _ _ he => he.mono (by omega)
      exact fun _ s₁ hs₁ => hone ▸ ih hs₁

/-! ## selection -/

/-- One candidate of the selection. -/
def better (best : Option Nat × ℚ) (e : Nat × ℚ) : Option Nat × ℚ :=
  if best.2 ≤ e.2 then (some e.1, e.2) else best

/-- How the selection judged a candidate: what was seen of it, and its text. -/
structure Judgement (ο : Type) where
  iteration : Nat
  verdict : Option (List (Option ο))
  text : String

/-- What a judgement leaves in a trace; without examples nothing is evaluated. -/
def Judgement.events (examples : List (ι × ο)) (j : Judgement ο) : List (Event ι ο) :=
  .read (.candidate j.iteration) j.text ::
    if examples.isEmpty then [] else [look (.candidate j.iteration) examples j.verdict]

/-- The stage score of the candidate's text, for the examples it passes. -/
def Judgement.score (task : Task ι ο) (examples : List (ι × ο)) (j : Judgement ο) : ℚ :=
  task.stageScore j.text
    (if examples.isEmpty then 0 else examples.length - task.failed examples j.verdict) examples

/-- What the selection does with the judgements. -/
def chosen (task : Task ι ο) (examples : List (ι × ο)) (judgements : List (Judgement ο))
    (best : Option Nat × ℚ) : Option Nat × ℚ :=
  (judgements.map fun j => (j.iteration, j.score task examples)).foldl better best

theorem selectionFailures_spec (iteration : Nat) :
    Follows Looks (selectionFailures task env iteration) s
      (fun fails s' => ∃ clock verdict, s' = { s with
          clock
          trace := (if s.examples.isEmpty then []
            else [look (.candidate iteration) s.examples verdict]) ++ s.trace } ∧
        s.examples.length - fails.length =
          if s.examples.isEmpty then 0 else s.examples.length - task.failed s.examples verdict)
      (fun _ _ => True) := by
  unfold selectionFailures
  refine .readThen ?_
  split
  · rename_i hempty
    refine .pure ⟨s.clock, none, rfl, ?_⟩
    rw [List.isEmpty_iff.mp hempty]
    rfl
  · refine (failures_spec (.candidate iteration)).mono (fun fails s' _ hq => ?_) fun _ _ _ he => he
    obtain ⟨clock, verdict, hs, hlen, -⟩ := hq
    exact ⟨clock, verdict, hs, by rw [hlen]⟩

/-- **The selection judges every archived candidate on the final examples**, and keeps the last of
the best. -/
theorem select_spec (iterations : List Nat) (best : Option Nat × ℚ) (h : Safe task args bound s) :
    Meets (select task env iterations best) s
      (fun result s' => ∃ (clock : Nat) (judgements : List (Judgement ο)),
        s' = { s with
          clock, trace := judgements.reverse.flatMap (Judgement.events s.examples) ++ s.trace } ∧
        judgements.map Judgement.iteration = iterations ∧
        result = chosen task s.examples judgements best)
      (fun _ s' => Safe task args bound s') := by
  induction iterations generalizing s best with
  | nil => exact ⟨s.clock, [], rfl, rfl, rfl⟩
  | cons iteration rest ih =>
      unfold select
      rw [meets_bind, meets_read, meets_bind]
      refine Meets.mono (selectionFailures_spec iteration) ?_ fun _ _ he => h.probes he.1.probes
      rintro fails s₁ ⟨hlooks₁, clock₁, verdict, rfl, hpassed⟩
      have hsafe₁ := h.probes hlooks₁.probes
      rw [meets_bind]
      refine Meets.mono (readText_spec (.candidate iteration)) ?_
        fun _ _ he => hsafe₁.probes he.1.probes
      rintro source s₂ ⟨hlooks₂, clock₂, rfl⟩
      have hsafe₂ := hsafe₁.probes hlooks₂.probes
      refine Meets.mono (ih _ hsafe₂) ?_ fun _ _ he => he
      rintro result s₃ ⟨later, judgements, rfl, hrest, rfl⟩
      refine ⟨later, ⟨iteration, verdict, source⟩ :: judgements, ?_, ?_, ?_⟩
      · dsimp only
        rw [List.reverse_cons, List.flatMap_append, List.flatMap_singleton, Judgement.events,
          List.append_assoc]
        rfl
      · rw [List.map_cons, hrest]
      · dsimp only
        rw [chosen, chosen, List.map_cons, List.foldl_cons, Judgement.score, hpassed]
        rfl

/-- The last maximum of a list of scores. -/
theorem foldl_better (scores : List (Nat × ℚ)) (best : Option Nat × ℚ) :
    (scores.foldl better best = best ∧ ∀ e ∈ scores, e.2 < best.2) ∨
      ∃ before e after, scores = before ++ e :: after ∧
        scores.foldl better best = (some e.1, e.2) ∧ best.2 ≤ e.2 ∧
        (∀ x ∈ before, x.2 ≤ e.2) ∧ ∀ x ∈ after, x.2 < e.2 := by
  induction scores generalizing best with
  | nil => exact .inl ⟨rfl, fun _ he => absurd he List.not_mem_nil⟩
  | cons e scores ih =>
      rw [List.foldl_cons]
      by_cases hle : best.2 ≤ e.2
      · have hnow : better best e = (some e.1, e.2) := if_pos hle
        rw [hnow]
        rcases ih (some e.1, e.2) with ⟨heq, hless⟩ | ⟨before, x, after, heq, hx, hge, hb, ha⟩
        · exact .inr ⟨[], e, scores, rfl, heq, hle, fun _ hm => absurd hm List.not_mem_nil, hless⟩
        · refine .inr ⟨e :: before, x, after, by rw [heq]; rfl, hx, hle.trans hge, ?_, ha⟩
          exact List.forall_mem_cons.mpr ⟨hge, hb⟩
      · have hnow : better best e = best := if_neg hle
        rw [hnow]
        have hlt : e.2 < best.2 := lt_of_not_ge hle
        rcases ih best with ⟨heq, hless⟩ | ⟨before, x, after, heq, hx, hge, hb, ha⟩
        · exact .inl ⟨heq, List.forall_mem_cons.mpr ⟨hlt, hless⟩⟩
        · refine .inr ⟨e :: before, x, after, by rw [heq]; rfl, hx, hge, ?_, ha⟩
          exact List.forall_mem_cons.mpr ⟨(hlt.le.trans hge), hb⟩

/-! ## the protocol -/

theorem safe_start : Safe task args 0 ({} : State ι ο) where
  keys := ⟨List.nodup_nil, fun _ he => absurd he List.not_mem_nil⟩
  known := rfl
  archived := rfl
  granted := rfl
  coder := rfl
  rounds := Nat.le_refl 0
  early h := by cases h

/-- What a run that returns delivers: its trace ends with the judgements of all archived candidates
on the final examples, and the program is the last of those that were judged best. -/
structure Delivered (task : Task ι ο) (args : Args) (outcome : Outcome ι ο)
    (trace : List (Event ι ο)) : Prop where
  early : outcome.stopReason = .earlyStop → Ended task args args.earlyStop trace
  best : ∃ (before : List (Event ι ο)) (judgements : List (Judgement ο)),
    trace = judgements.reverse.flatMap (Judgement.events outcome.examples) ++ before ∧
    outcome.examples = known before ∧ judgements.map Judgement.iteration = archivedIn before ∧
    ((judgements = [] ∧ outcome.finalProgram = none) ∨
      ∃ earlier j later, judgements = earlier ++ j :: later ∧
        outcome.finalProgram = some j.iteration ∧
        outcome.finalScore = j.score task outcome.examples ∧
        (∀ x ∈ earlier, x.score task outcome.examples ≤ j.score task outcome.examples) ∧
        ∀ x ∈ later, x.score task outcome.examples < j.score task outcome.examples)

/-- The candidate that is chosen is the last of the best. -/
theorem chosen_spec (task : Task ι ο) (examples : List (ι × ο)) (judgements : List (Judgement ο)) :
    (judgements = [] ∧ (chosen task examples judgements (none, -1)).1 = none) ∨
      ∃ earlier j later, judgements = earlier ++ j :: later ∧
        chosen task examples judgements (none, -1) = (some j.iteration, j.score task examples) ∧
        (∀ x ∈ earlier, x.score task examples ≤ j.score task examples) ∧
        ∀ x ∈ later, x.score task examples < j.score task examples := by
  have hmem : ∀ {j : Judgement ο} {js : List (Judgement ο)}, j ∈ js →
      (j.iteration, j.score task examples) ∈ js.map fun j => (j.iteration, j.score task examples) :=
    fun hj => List.mem_map.mpr ⟨_, hj, rfl⟩
  rcases foldl_better (judgements.map fun j => (j.iteration, j.score task examples)) (none, -1) with
    ⟨heq, hless⟩ | ⟨before, e, after, heq, hfold, -, hb, ha⟩
  · refine .inl ⟨List.eq_nil_iff_forall_not_mem.mpr fun j hj => ?_, congrArg Prod.fst heq⟩
    have hpos : (0 : ℚ) ≤ j.score task examples := le_max_left _ _
    have hneg := hless (j.iteration, j.score task examples) (hmem hj)
    linarith
  · obtain ⟨earlier, rest, rfl, rfl, hrest⟩ := List.map_eq_append_iff.mp heq
    obtain ⟨j, later, rfl, rfl, rfl⟩ := List.map_eq_cons_iff.mp hrest
    exact .inr ⟨earlier, j, later, rfl, hfold, fun x hx => hb (_, _) (hmem hx),
      fun x hx => ha (_, _) (hmem hx)⟩

/-- **Every run is safe, and one that returns has delivered.** -/
theorem reconstruct_spec (task : Task ι ο) (env : Surroundings ι ο) (args : Args) :
    Meets (reconstruct task env args) {}
      (fun outcome s => Safe task args args.maxIterations s ∧ outcome.examples = s.examples ∧
        Delivered task args outcome s.trace)
      (fun _ s => Safe task args args.maxIterations s) := by
  have hstart : Safe task args 0 ({} : State ι ο) := safe_start
  have hmore : ∀ {s : State ι ο}, Safe task args 0 s → Safe task args args.maxIterations s :=
    fun h => h.mono (Nat.zero_le _)
  unfold reconstruct
  rw [meets_bind]
  refine (grant_spec args.initialBatch).mono ?_ fun _ s₁ hp => hmore (hstart.probes hp)
  intro ok s₁ hs₁
  rw [meets_bind, meets_change, meets_bind]
  have hrunning : Running task args 0
      { s₁ with nextBatch := args.initialBatch + args.batchStep } := by
    cases ok with
    | true =>
        have hg : Granted task args.initialBatch ({} : State ι ο) s₁ := hs₁
        have hfirst : args.initialBatch = args.batchSize 0 := by
          rw [Args.batchSize, Nat.zero_mul, Nat.add_zero]
        have hsafe := hstart.granted_next hg hfirst rfl
        have hcount : s₁.consecutive = 0 := hg.probes.consecutive
        refine { hsafe with
          keys := ⟨hsafe.keys.nodup, hsafe.keys.remembered⟩
          nextBatch := fun _ => ?_
          streak := fun _ => ?_ }
        · show _ = args.batchSize s₁.granted.length
          rw [hg.granted, Args.batchSize]
          simp
        · show Streak task args s₁.consecutive _
          rw [hcount]
          trivial
    | false =>
        obtain ⟨hsafe, hstop⟩ := hstart.refused hs₁ rfl
        exact { hsafe with
          keys := ⟨hsafe.keys.nodup, hsafe.keys.remembered⟩
          nextBatch := fun hnone => absurd hnone hstop
          streak := fun hnone => absurd hnone hstop }
  refine Meets.mono (iterations_spec args.maxIterations hrunning) ?_
    fun _ _ he => Nat.zero_add args.maxIterations ▸ he
  intro _ s₂ hs₂
  rw [Nat.zero_add] at hs₂
  rw [meets_bind, meets_change, meets_bind, meets_read, meets_bind]
  have hreason : s₂.stopReason.or (some .maxIterations) = some .earlyStop →
      s₂.stopReason = some .earlyStop := by
    intro hearly
    cases hstop : s₂.stopReason with
    | none =>
        rw [hstop] at hearly
        cases hearly
    | some reason =>
        rw [hstop] at hearly
        exact hearly
  have hsafe : Safe task args args.maxIterations
      { s₂ with stopReason := s₂.stopReason.or (some .maxIterations) } :=
    { hs₂.toSafe with
      keys := ⟨hs₂.keys.nodup, hs₂.keys.remembered⟩
      early := fun hearly => hs₂.early (hreason hearly) }
  refine Meets.mono (select_spec s₂.archived (none, -1) hsafe) ?_ fun _ _ he => he
  rintro result s₃ ⟨clock, judgements, rfl, hall, rfl⟩
  have hquiet : ∀ e ∈ judgements.reverse.flatMap (Judgement.events s₂.examples),
      e.isLook = true := by
    intro e he
    obtain ⟨j, -, he⟩ := List.mem_flatMap.mp he
    obtain rfl | he := List.mem_cons.mp he
    · rfl
    · split at he
      · exact absurd he List.not_mem_nil
      · rw [List.mem_singleton.mp he]
        exact isLook_look _ _ _
  refine ⟨hsafe.probes (Looks.probes ⟨clock, _, rfl, hquiet⟩), rfl, fun hearly => ?_,
    s₂.trace, judgements, rfl, hs₂.known, hall.trans hs₂.archived, ?_⟩
  · refine Ended.after (hs₂.early (hreason ?_)) fun e he => (quiet_of_isLook (hquiet e he)).1
    change (s₂.stopReason.or _).getD _ = _ at hearly
    cases hstop : s₂.stopReason with
    | none =>
        rw [hstop] at hearly
        cases hearly
    | some reason =>
        rw [hstop] at hearly
        exact congrArg some hearly
  · rcases chosen_spec task s₂.examples judgements with
      hnone | ⟨earlier, j, later, heq, hchosen, hearlier, hlater⟩
    · exact .inl hnone
    · exact .inr ⟨earlier, j, later, heq, congrArg Prod.fst hchosen, congrArg Prod.snd hchosen,
        hearlier, hlater⟩

end OpenCollab.Reconstruct
