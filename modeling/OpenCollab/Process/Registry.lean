import Mathlib.Data.List.Basic

/-!
# OpenCollab.Process.Registry

`ProcessRegistry` of `adapters/_env_process.py`: who answers for a child process.

A spawn call takes the registry's lock three times, and waits for its factory and, if need
be, for the process's termination in between; `_abort_owned` revokes the registry, waits
until no spawn call is left, and terminates what is registered; a caller that has given
up leaves its spawn call to a reaper.  Each `Action` is what happens between two waits.

* `Inv.setSpawn` — what a step of one spawn call has to keep;
* `Inv.act` — every action keeps the invariant;
* `registry_keeps` — no process outlives its registry;
* `unproven_spawn_lost` — unless its termination in a spawn call is not proven.
-/

namespace OpenCollab.Process.Registry

/-! ## states -/

/-- The task of a factory: it fails, or gives a process. -/
inductive Factory where
  | running
  | failed
  | produced (process : Nat)
deriving DecidableEq, Repr

/-- Where a spawn call stands: before its first lock, waiting for its factory (and asked
to stop meanwhile, or not), before the lock of the registration, waiting for the end of
the process, before the last lock, and over, with a process or an exception. -/
inductive Stage where
  | entering
  | waiting (cancelled : Bool) (factory : Factory)
  | registering (process : Nat)
  | terminating (process : Nat)
  | leaving (result : Option Nat)
  | left (result : Option Nat)
deriving DecidableEq, Repr

/-- A spawn call.  `late`: the registry was revoked when it began. -/
structure Spawn where
  stage : Stage
  late : Bool
deriving DecidableEq, Repr

/-- Where `_abort_owned` stands: before the lock, waiting for the handoffs, waiting for the
ends of the processes that were registered, and over, normally or with an exception. -/
inductive Abort where
  | starting
  | waiting
  | terminating (results : List (Nat × Option Bool))
  | done (normally : Bool)
deriving DecidableEq, Repr

/-- Where `_reap_late_spawn` stands. -/
inductive Reaper where
  | waiting (spawn : Nat)
  | terminating (process : Nat)
  | done
deriving DecidableEq, Repr

/-- A registry and the tasks around it.  `produced` processes have been given by factories,
numbered in that order; `terminated` are those whose group is gone. -/
structure State where
  revoked : Bool := false
  handoffs : Nat := 0
  processes : List Nat := []
  spawns : List Spawn := []
  aborts : List Abort := []
  reapers : List Reaper := []
  produced : Nat := 0
  terminated : List Nat := []
deriving DecidableEq, Repr

/-- What can happen between two waits.  `proven`: what `terminate_process` returned. -/
inductive Action where
  | spawn
  | cancel (spawn : Nat)
  | enter (spawn : Nat)
  | factoryDone (spawn : Nat) (success : Bool)
  | resume (spawn : Nat)
  | register (spawn : Nat)
  | terminated (spawn : Nat) (proven : Bool)
  | leave (spawn : Nat)
  | giveUp (spawn : Nat)
  | reap (reaper : Nat) (proven : Bool)
  | exit (process : Nat)
  | discard (process : Nat)
  | abort
  | revoke (abort : Nat)
  | sweep (abort : Nat)
  | timeout (abort : Nat)
  | swept (abort : Nat) (place : Nat) (proven : Bool)
  | finish (abort : Nat)
deriving DecidableEq, Repr

namespace State

/-- A spawn call goes on to a stage. -/
def setStage (s : State) (id : Nat) (spawn : Spawn) (stage : Stage) : State :=
  { s with spawns := s.spawns.set id { spawn with stage } }

/-- `terminate_process` has returned: it returns `True` only when the group is gone. -/
def prove (s : State) (process : Nat) (proven : Bool) : State :=
  if proven then { s with terminated := process :: s.terminated } else s

/-- A cancellation reaches a spawn call.  It stops a wait for a lock, is put off while the
factory runs, and is absorbed by the wait for the end of a process. -/
def cancel (s : State) (id : Nat) : State :=
  match s.spawns[id]? with
  | none => s
  | some spawn =>
      match spawn.stage with
      | .entering => s.setStage id spawn (.left none)
      | .waiting _ factory => s.setStage id spawn (.waiting true factory)
      | .registering process => s.setStage id spawn (.terminating process)
      | .terminating _ => s
      | .leaving _ => s.setStage id spawn (.left none)
      | .left _ => s

/-- The first lock: a revoked registry refuses. -/
def enter (s : State) (id : Nat) : State :=
  match s.spawns[id]? with
  | some spawn =>
      if spawn.stage = .entering then
        if s.revoked then s.setStage id spawn (.left none)
        else { s.setStage id spawn (.waiting false .running) with handoffs := s.handoffs + 1 }
      else s
  | none => s

/-- A factory fails, or gives the next process. -/
def factoryDone (s : State) (id : Nat) (success : Bool) : State :=
  match s.spawns[id]? with
  | some { stage := .waiting cancelled .running, late } =>
      if success then
        { s with spawns := s.spawns.set id ⟨.waiting cancelled (.produced s.produced), late⟩
                 produced := s.produced + 1 }
      else { s with spawns := s.spawns.set id ⟨.waiting cancelled .failed, late⟩ }
  | _ => s

/-- `_spawn_owned` after its factory. -/
def resume (s : State) (id : Nat) : State :=
  match s.spawns[id]? with
  | none => s
  | some spawn =>
      match spawn.stage with
      | .waiting _ .failed => s.setStage id spawn (.leaving none)
      | .waiting false (.produced process) => s.setStage id spawn (.registering process)
      | .waiting true (.produced process) => s.setStage id spawn (.terminating process)
      | _ => s

/-- The second lock: a process that comes after a revocation is not registered. -/
def register (s : State) (id : Nat) : State :=
  match s.spawns[id]? with
  | none => s
  | some spawn =>
      match spawn.stage with
      | .registering process =>
          if s.revoked then s.setStage id spawn (.terminating process)
          else { s.setStage id spawn (.leaving (some process)) with
            processes := process :: s.processes }
      | _ => s

/-- The process of a spawn call is terminated, or not: the call raises either way. -/
def spawnTerminated (s : State) (id : Nat) (proven : Bool) : State :=
  match s.spawns[id]? with
  | none => s
  | some spawn =>
      match spawn.stage with
      | .terminating process => (s.setStage id spawn (.leaving none)).prove process proven
      | _ => s

/-- The last lock. -/
def leave (s : State) (id : Nat) : State :=
  match s.spawns[id]? with
  | none => s
  | some spawn =>
      match spawn.stage with
      | .leaving result => { s.setStage id spawn (.left result) with handoffs := s.handoffs - 1 }
      | _ => s

/-- `discard`. -/
def discardProcess (s : State) (process : Nat) : State :=
  { s with processes := s.processes.filter (· ≠ process) }

/-- A step of a reaper. -/
def reap (s : State) (id : Nat) (proven : Bool) : State :=
  match s.reapers[id]? with
  | some (.waiting spawn) =>
      match s.spawns[spawn]? with
      | some { stage := .left (some process), .. } =>
          { s with reapers := s.reapers.set id (.terminating process) }
      | some { stage := .left none, .. } => { s with reapers := s.reapers.set id .done }
      | _ => s
  | some (.terminating process) =>
      let s := { s.prove process proven with reapers := s.reapers.set id .done }
      if proven then s.discardProcess process else s
  | _ => s

/-- The end of `_abort_owned`: what is proven is discarded, and all must be. -/
def finish (s : State) (id : Nat) : State :=
  match s.aborts[id]? with
  | some (.terminating results) =>
      if results.all (·.2.isSome) then
        { s with processes := s.processes.filter fun process => (process, some true) ∉ results
                 aborts := s.aborts.set id (.done (results.all (·.2 = some true))) }
      else s
  | _ => s

/-- What an action does. -/
def act (s : State) : Action → State
  | .spawn => { s with spawns := s.spawns ++ [⟨.entering, s.revoked⟩] }
  | .cancel id => s.cancel id
  | .enter id => s.enter id
  | .factoryDone id success => s.factoryDone id success
  | .resume id => s.resume id
  | .register id => s.register id
  | .terminated id proven => s.spawnTerminated id proven
  | .leave id => s.leave id
  | .giveUp id => { s.cancel id with reapers := s.reapers ++ [.waiting id] }
  | .reap id proven => s.reap id proven
  | .exit process =>
      if process < s.produced then { s with terminated := process :: s.terminated } else s
  | .discard process => if process ∈ s.terminated then s.discardProcess process else s
  | .abort => { s with aborts := s.aborts ++ [.starting] }
  | .revoke id =>
      if s.aborts[id]? = some .starting then
        { s with revoked := true, aborts := s.aborts.set id .waiting }
      else s
  | .sweep id =>
      if s.aborts[id]? = some .waiting ∧ s.handoffs = 0 then
        { s with aborts := s.aborts.set id (.terminating (s.processes.map (·, none))) }
      else s
  | .timeout id =>
      if s.aborts[id]? = some .waiting then
        { s with aborts := s.aborts.set id (.done false) }
      else s
  | .swept id place proven =>
      match s.aborts[id]? with
      | some (.terminating results) =>
          match results[place]? with
          | some (process, none) =>
              { s.prove process proven with
                aborts := s.aborts.set id
                  (.terminating (results.set place (process, some proven))) }
          | _ => s
      | _ => s
  | .finish id => s.finish id

/-- A run. -/
def run (s : State) (actions : List Action) : State := actions.foldl act s

end State

/-! ## what is promised -/

/-- The call has entered and not left. -/
def Stage.inside : Stage → Bool
  | .waiting _ _ | .registering _ | .terminating _ | .leaving _ => true
  | .entering | .left _ => false

/-- The call answers for the process. -/
def Stage.Holds (stage : Stage) (process : Nat) : Prop :=
  match stage with
  | .waiting _ (.produced p) | .registering p | .terminating p => p = process
  | _ => False

namespace State

/-- What is promised in every state. -/
structure Kept (s : State) : Prop where
  /-- the handoffs are the spawn calls that have entered and not left -/
  counted : s.handoffs = s.spawns.countP (·.stage.inside)
  /-- a call that began after the revocation returns no process -/
  refused : ∀ spawn ∈ s.spawns, spawn.late = true → ∀ process, spawn.stage ≠ .left (some process)
  /-- each process is held by a spawn call or a reaper, registered, or terminated -/
  held : ∀ process < s.produced, (∃ spawn ∈ s.spawns, spawn.stage.Holds process) ∨
    Reaper.terminating process ∈ s.reapers ∨ process ∈ s.processes ∨ process ∈ s.terminated
  /-- once an abort has returned normally, every process is terminated -/
  swept : Abort.done true ∈ s.aborts → ∀ process < s.produced, process ∈ s.terminated

/-! ## the invariant -/

variable {s s' : State} {id : Nat}

/-- What an abort knows. -/
def AbortKnows (s : State) : Abort → Prop
  | .waiting => s.revoked = true
  | .terminating results => s.revoked = true ∧ s.handoffs = 0 ∧
      (∀ process < s.produced, process ∈ s.terminated ∨ ∃ result ∈ results, result.1 = process) ∧
      ∀ process, (process, some true) ∈ results → process ∈ s.terminated
  | .done true => s.revoked = true ∧ s.handoffs = 0 ∧ ∀ process < s.produced, process ∈ s.terminated
  | .starting | .done false => True

/-- What holds between two actions. -/
structure Inv (s : State) : Prop where
  counted : s.handoffs = s.spawns.countP (·.stage.inside)
  late : ∀ spawn ∈ s.spawns, spawn.late = true →
    s.revoked = true ∧ (spawn.stage = .entering ∨ spawn.stage = .left none)
  held : ∀ process < s.produced, (∃ spawn ∈ s.spawns, spawn.stage.Holds process) ∨
    process ∈ s.processes ∨ process ∈ s.terminated
  aborts : ∀ abort ∈ s.aborts, s.AbortKnows abort

theorem inv_init : Inv {} := by
  constructor <;> simp

/-- What an abort knows stays true: a revoked registry without handoffs stays so, and gets
no more processes. -/
theorem AbortKnows.mono {abort : Abort} (h : s.AbortKnows abort)
    (hrevoked : s.revoked = true → s'.revoked = true)
    (hquiet : s.revoked = true → s.handoffs = 0 → s'.handoffs = 0 ∧ s'.produced = s.produced)
    (hterminated : ∀ process ∈ s.terminated, process ∈ s'.terminated) : s'.AbortKnows abort := by
  cases abort with
  | starting => trivial
  | waiting => exact hrevoked h
  | terminating results =>
      obtain ⟨hrev, hzero, hall, hproven⟩ := h
      obtain ⟨hzero', hproduced⟩ := hquiet hrev hzero
      refine ⟨hrevoked hrev, hzero', fun process hp => ?_, fun process hp =>
        hterminated process (hproven process hp)⟩
      obtain hdone | hresult := hall process (hproduced ▸ hp)
      · exact .inl (hterminated process hdone)
      · exact .inr hresult
  | done normally =>
      cases normally with
      | false => trivial
      | true =>
          obtain ⟨hrev, hzero, hall⟩ := h
          obtain ⟨hzero', hproduced⟩ := hquiet hrev hzero
          exact ⟨hrevoked hrev, hzero', fun process hp =>
            hterminated process (hall process (hproduced ▸ hp))⟩

/-- **A step of one spawn call** keeps the invariant if it counts itself, hands its process
on, and enters no revoked registry. -/
theorem Inv.setSpawn (h : Inv s) {spawn : Spawn} {stage : Stage} (hget : s.spawns[id]? = some spawn)
    (hspawns : s'.spawns = s.spawns.set id { spawn with stage }) (haborts : s'.aborts = s.aborts)
    (hrevoked : s'.revoked = s.revoked)
    (hproduced : s'.produced = s.produced ∨
      spawn.stage.inside = true ∧ s'.produced = s.produced + 1 ∧ stage.Holds s.produced)
    (hhandoffs : s'.handoffs + spawn.stage.inside.toNat = s.handoffs + stage.inside.toNat)
    (hentered : stage.inside = true → spawn.stage.inside = true ∨ s.revoked = false)
    (hprocesses : ∀ process ∈ s.processes, process ∈ s'.processes)
    (hterminated : ∀ process ∈ s.terminated, process ∈ s'.terminated)
    (hholds : ∀ process, spawn.stage.Holds process →
      stage.Holds process ∨ process ∈ s'.processes ∨ process ∈ s'.terminated)
    (hlate : spawn.late = true → stage = .entering ∨ stage = .left none) : Inv s' := by
  obtain ⟨hlt, hat⟩ := List.getElem?_eq_some_iff.mp hget
  have hmem : spawn ∈ s.spawns := hat ▸ List.getElem_mem hlt
  have hset : { spawn with stage } ∈ s'.spawns := by
    rw [hspawns]
    exact List.mem_set hlt _
  have hpos : spawn.stage.inside = true → 1 ≤ s.handoffs := by
    intro hin
    rw [h.counted]
    exact List.countP_pos_iff.mpr ⟨spawn, hmem, hin⟩
  refine ⟨?_, ?_, ?_, ?_⟩
  · have hcount : (s.spawns.set id { spawn with stage }).countP (·.stage.inside) =
        s.handoffs - (if spawn.stage.inside = true then 1 else 0) +
          if stage.inside = true then 1 else 0 := by
      rw [List.countP_set hlt, hat, ← h.counted]
    rw [hspawns, hcount]
    have hbit : ∀ b : Bool, (if b = true then 1 else 0) = b.toNat := fun b => by cases b <;> rfl
    rw [hbit, hbit]
    cases hold : spawn.stage.inside with
    | false =>
        rw [hold] at hhandoffs
        exact hhandoffs
    | true =>
        have hsome := hpos hold
        rw [hold, Bool.toNat_true] at hhandoffs
        rw [Bool.toNat_true]
        omega
  · intro sp hsp hl
    rw [hspawns] at hsp
    obtain hsp | rfl := List.mem_or_eq_of_mem_set hsp
    · rw [hrevoked]
      exact h.late sp hsp hl
    · rw [hrevoked]
      exact ⟨(h.late spawn hmem hl).1, hlate hl⟩
  · intro process hp
    have hheld : process < s.produced → (∃ sp ∈ s'.spawns, sp.stage.Holds process) ∨
        process ∈ s'.processes ∨ process ∈ s'.terminated := by
      intro hlow
      obtain ⟨sp, hsp, hholdsp⟩ | hproc | hterm := h.held process hlow
      · -- the call that held it is another one, or hands it on
        obtain ⟨j, hj, rfl⟩ := List.getElem_of_mem hsp
        by_cases hji : j = id
        · subst hji
          rw [hat] at hholdsp
          obtain hnew | hgone := hholds process hholdsp
          · exact .inl ⟨_, hset, hnew⟩
          · exact .inr hgone
        · refine .inl ⟨s.spawns[j], ?_, hholdsp⟩
          rw [hspawns]
          exact List.mem_iff_getElem?.mpr ⟨j, by
            rw [List.getElem?_set_ne (Ne.symm hji), List.getElem?_eq_getElem hj]⟩
      · exact .inr (.inl (hprocesses process hproc))
      · exact .inr (.inr (hterminated process hterm))
    obtain hsame | ⟨-, hnext, hholdnew⟩ := hproduced
    · exact hheld (hsame ▸ hp)
    · by_cases hlow : process < s.produced
      · exact hheld hlow
      · have hlast : process = s.produced := by omega
        exact .inl ⟨_, hset, hlast ▸ hholdnew⟩
  · intro abort habort
    rw [haborts] at habort
    refine (h.aborts abort habort).mono (fun hrev => hrevoked ▸ hrev)
      (fun hrev hzero => ?_) hterminated
    have hout : spawn.stage.inside = false := by
      cases hin : spawn.stage.inside with
      | false => rfl
      | true =>
          have := hpos hin
          omega
    have hnew : stage.inside = false := by
      cases hin : stage.inside with
      | false => rfl
      | true =>
          obtain hold | hfree := hentered hin
          · rw [hout] at hold
            contradiction
          · rw [hrev] at hfree
            contradiction
    refine ⟨by rw [hout, hnew] at hhandoffs; simpa [hzero] using hhandoffs, ?_⟩
    obtain hsame | ⟨hin, -⟩ := hproduced
    · exact hsame
    · rw [hout] at hin
      contradiction

/-- An action that is none of a spawn call's. -/
theorem Inv.frame (h : Inv s) (hspawns : s'.spawns = s.spawns)
    (hhandoffs : s'.handoffs = s.handoffs)
    (hproduced : s'.produced = s.produced) (hrevoked : s.revoked = true → s'.revoked = true)
    (hprocesses : ∀ process ∈ s.processes, process ∈ s'.processes ∨ process ∈ s'.terminated)
    (hterminated : ∀ process ∈ s.terminated, process ∈ s'.terminated)
    (haborts : ∀ abort ∈ s'.aborts, abort ∈ s.aborts ∨ s'.AbortKnows abort) : Inv s' := by
  refine ⟨by rw [hspawns, hhandoffs]; exact h.counted, fun sp hsp hl => ?_, fun process hp => ?_,
    fun abort habort => ?_⟩
  · rw [hspawns] at hsp
    exact ⟨hrevoked (h.late sp hsp hl).1, (h.late sp hsp hl).2⟩
  · rw [hproduced] at hp
    obtain hspawn | hproc | hterm := h.held process hp
    · exact .inl (hspawns ▸ hspawn)
    · exact .inr (hprocesses process hproc)
    · exact .inr (.inr (hterminated process hterm))
  · obtain hold | hknown := haborts abort habort
    · exact (h.aborts abort hold).mono hrevoked (fun _ hzero => ⟨hhandoffs.trans hzero, hproduced⟩)
        hterminated
    · exact hknown

/-! ## one action -/

theorem prove_frame (s : State) (process : Nat) (proven : Bool) :
    (s.prove process proven).spawns = s.spawns ∧ (s.prove process proven).aborts = s.aborts ∧
      (s.prove process proven).reapers = s.reapers ∧
      (s.prove process proven).revoked = s.revoked ∧
        (s.prove process proven).handoffs = s.handoffs ∧
      (s.prove process proven).produced = s.produced ∧
      (s.prove process proven).processes = s.processes ∧
      (∀ p ∈ s.terminated, p ∈ (s.prove process proven).terminated) ∧
      (proven = true → process ∈ (s.prove process proven).terminated) := by
  cases proven with
  | false => exact ⟨rfl, rfl, rfl, rfl, rfl, rfl, rfl, fun _ h => h, fun h => by contradiction⟩
  | true =>
      exact ⟨rfl, rfl, rfl, rfl, rfl, rfl, rfl, fun _ h => List.mem_cons_of_mem _ h,
        fun _ => List.mem_cons_self⟩

/-- A late call has not entered. -/
theorem Inv.not_late (h : Inv s) {spawn : Spawn} (hget : s.spawns[id]? = some spawn)
    (hstage : spawn.stage ≠ .entering) (hleft : spawn.stage ≠ .left none) : spawn.late = false := by
  cases hlate : spawn.late with
  | false => rfl
  | true =>
      obtain hone | htwo := (h.late spawn (List.mem_of_getElem? hget) hlate).2
      · exact absurd hone hstage
      · exact absurd htwo hleft

/-- A step of a spawn call that stays inside, or outside, and touches nothing else. -/
theorem Inv.setStage (h : Inv s) {spawn : Spawn} {stage : Stage} (hget : s.spawns[id]? = some spawn)
    (hinside : stage.inside = spawn.stage.inside)
    (hholds : ∀ process, spawn.stage.Holds process → stage.Holds process)
    (hlate : spawn.late = true → stage = .entering ∨ stage = .left none) :
    (s.setStage id spawn stage).Inv :=
  h.setSpawn hget rfl rfl rfl (.inl rfl) (by rw [hinside]; rfl) (fun hin => .inl (hinside ▸ hin))
    (fun _ hp => hp) (fun _ hp => hp) (fun process hp => .inl (hholds process hp)) hlate

theorem Inv.cancel (h : Inv s)
    (hgraceful : ∀ spawn, s.spawns[id]? = some spawn → ∀ result, spawn.stage ≠ .leaving result) :
    (s.cancel id).Inv := by
  rw [State.cancel]
  split
  · exact h
  · rename_i spawn hget
    split
    · rename_i hstage
      exact h.setStage hget (by rw [hstage]; rfl) (by rw [hstage]; exact fun _ hp => hp)
        fun _ => .inr rfl
    · rename_i cancelled factory hstage
      have hnot := h.not_late hget (by rw [hstage]; simp) (by rw [hstage]; simp)
      refine h.setStage hget (by rw [hstage]; rfl) ?_
        (fun hlate => by rw [hnot] at hlate; contradiction)
      rw [hstage]
      cases factory <;> exact fun _ hp => hp
    · rename_i process hstage
      have hnot := h.not_late hget (by rw [hstage]; simp) (by rw [hstage]; simp)
      refine h.setStage hget (by rw [hstage]; rfl) ?_
        (fun hlate => by rw [hnot] at hlate; contradiction)
      rw [hstage]
      exact fun _ hp => hp
    · exact h
    · rename_i result hstage
      exact absurd hstage (hgraceful spawn hget result)
    · exact h

theorem Inv.enter (h : Inv s) : (s.enter id).Inv := by
  rw [State.enter]
  split
  · rename_i spawn hget
    split
    · rename_i hstage
      split
      · exact h.setStage hget (by rw [hstage]; rfl) (by rw [hstage]; exact fun _ hp => hp)
          fun _ => .inr rfl
      · rename_i hfree
        have hfree : s.revoked = false := by simpa using hfree
        refine h.setSpawn hget rfl rfl rfl (.inl rfl) (by rw [hstage]; rfl) (fun _ => .inr hfree)
          (fun _ hp => hp) (fun _ hp => hp) (by rw [hstage]; exact fun _ hp => hp.elim) ?_
        intro hlate
        rw [(h.late spawn (List.mem_of_getElem? hget) hlate).1] at hfree
        contradiction
    · exact h
  · exact h

theorem Inv.factoryDone (h : Inv s) (success : Bool) : (s.factoryDone id success).Inv := by
  rw [State.factoryDone]
  split
  · rename_i cancelled late hget
    have hnot := h.not_late hget (by simp) (by simp)
    split
    · exact h.setSpawn hget rfl rfl rfl (.inr ⟨rfl, rfl, rfl⟩) rfl (fun _ => .inl rfl)
        (fun _ hp => hp) (fun _ hp => hp) (fun _ hp => hp.elim)
        (fun hlate => by rw [hnot] at hlate; contradiction)
    · exact h.setStage hget rfl (fun _ hp => hp.elim)
        (fun hlate => by rw [hnot] at hlate; contradiction)
  · exact h

theorem Inv.resume (h : Inv s) : (s.resume id).Inv := by
  rw [State.resume]
  split
  · exact h
  · rename_i spawn hget
    split
    · rename_i cancelled hstage
      have hnot := h.not_late hget (by rw [hstage]; simp) (by rw [hstage]; simp)
      refine h.setStage hget (by rw [hstage]; rfl) ?_
        (fun hlate => by rw [hnot] at hlate; contradiction)
      rw [hstage]
      exact fun _ hp => hp.elim
    · rename_i process hstage
      have hnot := h.not_late hget (by rw [hstage]; simp) (by rw [hstage]; simp)
      refine h.setStage hget (by rw [hstage]; rfl) ?_
        (fun hlate => by rw [hnot] at hlate; contradiction)
      rw [hstage]
      exact fun _ hp => hp
    · rename_i process hstage
      have hnot := h.not_late hget (by rw [hstage]; simp) (by rw [hstage]; simp)
      refine h.setStage hget (by rw [hstage]; rfl) ?_
        (fun hlate => by rw [hnot] at hlate; contradiction)
      rw [hstage]
      exact fun _ hp => hp
    · exact h

theorem Inv.register (h : Inv s) : (s.register id).Inv := by
  rw [State.register]
  split
  · exact h
  · rename_i spawn hget
    split
    · rename_i process hstage
      have hnot := h.not_late hget (by rw [hstage]; simp) (by rw [hstage]; simp)
      split
      · refine h.setStage hget (by rw [hstage]; rfl) ?_
          (fun hlate => by rw [hnot] at hlate; contradiction)
        rw [hstage]
        exact fun _ hp => hp
      · refine h.setSpawn hget rfl rfl rfl (.inl rfl) (by rw [hstage]; rfl)
          (fun _ => .inl (by rw [hstage]; rfl)) (fun _ hp => List.mem_cons_of_mem _ hp)
          (fun _ hp => hp) ?_ (fun hlate => by rw [hnot] at hlate; contradiction)
        rw [hstage]
        rintro p rfl
        exact .inr (.inl List.mem_cons_self)
    · exact h

theorem Inv.spawnTerminated (h : Inv s) : (s.spawnTerminated id true).Inv := by
  rw [State.spawnTerminated]
  split
  · exact h
  · rename_i spawn hget
    split
    · rename_i process hstage
      have hnot := h.not_late hget (by rw [hstage]; simp) (by rw [hstage]; simp)
      refine h.setSpawn hget rfl rfl rfl (.inl rfl) (by rw [hstage]; rfl)
        (fun _ => .inl (by rw [hstage]; rfl)) (fun _ hp => hp)
        (fun _ hp => List.mem_cons_of_mem _ hp) ?_
          (fun hlate => by rw [hnot] at hlate; contradiction)
      rw [hstage]
      rintro p rfl
      exact .inr (.inr List.mem_cons_self)
    · exact h

theorem Inv.leave (h : Inv s) : (s.leave id).Inv := by
  rw [State.leave]
  split
  · exact h
  · rename_i spawn hget
    split
    · rename_i result hstage
      have hnot := h.not_late hget (by rw [hstage]; simp) (by rw [hstage]; simp)
      have hpos : 1 ≤ s.handoffs := by
        rw [h.counted]
        exact List.countP_pos_iff.mpr ⟨spawn, List.mem_of_getElem? hget, by rw [hstage]; rfl⟩
      refine h.setSpawn hget rfl rfl rfl (.inl rfl) ?_ (fun hin => by contradiction)
        (fun _ hp => hp)
        (fun _ hp => hp) (by rw [hstage]; exact fun _ hp => hp.elim)
        (fun hlate => by rw [hnot] at hlate; contradiction)
      rw [hstage]
      change s.handoffs - 1 + 1 = s.handoffs
      omega
    · exact h

/-- Discarding a terminated process. -/
theorem Inv.discardProcess (h : Inv s) {process : Nat} (hterm : process ∈ s.terminated) :
    (s.discardProcess process).Inv := by
  refine h.frame rfl rfl rfl (fun hrev => hrev) (fun p hp => ?_) (fun _ hp => hp)
    (fun _ ha => .inl ha)
  by_cases heq : p = process
  · exact .inr (heq ▸ hterm)
  · exact .inl (List.mem_filter.mpr ⟨hp, decide_eq_true heq⟩)

theorem Inv.setReapers (h : Inv s) (reapers : List Reaper) : ({ s with reapers } : State).Inv :=
  h.frame rfl rfl rfl (fun hrev => hrev) (fun _ hp => .inl hp) (fun _ hp => hp) fun _ ha => .inl ha

theorem Inv.reap (h : Inv s) (proven : Bool) : (s.reap id proven).Inv := by
  rw [State.reap]
  split
  · split
    · exact h.setReapers _
    · exact h.setReapers _
    · exact h
  · rename_i process hget
    obtain ⟨hspawns, haborts, -, hrevoked, hhandoffs, hproduced, hprocesses, hterm, hproven⟩ :=
      prove_frame s process proven
    have hnext : ({ s.prove process proven with reapers := s.reapers.set id .done } :
      State).Inv := by
      refine h.frame hspawns hhandoffs hproduced (fun hrev => hrevoked.trans hrev)
        (fun p hp => ?_) hterm
        fun a ha => .inl (haborts ▸ ha)
      exact .inl (hprocesses.symm ▸ hp)
    dsimp only
    split
    · rename_i htrue
      exact hnext.discardProcess (hproven htrue)
    · exact hnext
  · exact h

/-- An abort goes on, where it knows what it has to. -/
theorem Inv.setAbort (h : Inv s) {abort : Abort} (hspawns : s'.spawns = s.spawns)
    (hhandoffs : s'.handoffs = s.handoffs) (hproduced : s'.produced = s.produced)
    (hrevoked : s.revoked = true → s'.revoked = true)
    (hprocesses : ∀ process ∈ s.processes, process ∈ s'.processes ∨ process ∈ s'.terminated)
    (hterminated : ∀ process ∈ s.terminated, process ∈ s'.terminated)
    (haborts : s'.aborts = s.aborts.set id abort) (hknows : s'.AbortKnows abort) : Inv s' := by
  refine h.frame hspawns hhandoffs hproduced hrevoked hprocesses hterminated fun a ha => ?_
  rw [haborts] at ha
  obtain hold | rfl := List.mem_or_eq_of_mem_set ha
  · exact .inl hold
  · exact .inr hknows

theorem Inv.sweep (h : Inv s) (hget : s.aborts[id]? = some .waiting) (hzero : s.handoffs = 0) :
    ({ s with aborts := s.aborts.set id (.terminating (s.processes.map (·, none))) } :
      State).Inv := by
  have hrevoked : s.revoked = true := h.aborts _ (List.mem_of_getElem? hget)
  refine h.setAbort rfl rfl rfl (fun hrev => hrev) (fun _ hp => .inl hp) (fun _ hp => hp) rfl
    ⟨hrevoked, hzero, fun process hp => ?_, fun process hp => ?_⟩
  · -- without handoffs no spawn call holds a process
    obtain ⟨spawn, hmem, hholds⟩ | hproc | hterm := h.held process hp
    · have hcount := h.counted
      rw [hzero, eq_comm, List.countP_eq_zero] at hcount
      have hout := hcount spawn hmem
      cases hstage : spawn.stage <;> rw [hstage] at hout hholds <;>
        first | exact absurd rfl hout | exact hholds.elim
    · exact .inr ⟨(process, none), List.mem_map.mpr ⟨process, hproc, rfl⟩, rfl⟩
    · exact .inl hterm
  · obtain ⟨p, -, hpair⟩ := List.mem_map.mp hp
    cases (Prod.mk.inj hpair).2

theorem Inv.swept (h : Inv s) {results : List (Nat × Option Bool)} {place process : Nat}
    (hget : s.aborts[id]? = some (.terminating results))
    (hplace : results[place]? = some (process, none)) (proven : Bool) :
    ({ s.prove process proven with
        aborts := s.aborts.set id (.terminating (results.set place (process, some proven))) } :
      State).Inv := by
  obtain ⟨hspawns, -, -, hrevoked, hhandoffs, hproduced, hprocesses, hterm, hproven⟩ :=
    prove_frame s process proven
  obtain ⟨hrev, hzero, hall, hknown⟩ := h.aborts _ (List.mem_of_getElem? hget)
  refine h.setAbort hspawns hhandoffs hproduced (fun hrev => hrevoked.trans hrev)
    (fun p hp => .inl (hprocesses.symm ▸ hp)) hterm rfl
    ⟨hrevoked.trans hrev, hhandoffs.trans hzero, fun p hp => ?_, fun p hp => ?_⟩
  · obtain hdone | ⟨result, hmem, rfl⟩ := hall p (hproduced ▸ hp)
    · exact .inl (hterm p hdone)
    · -- the results keep their processes
      obtain ⟨j, hj, rfl⟩ := List.getElem_of_mem hmem
      refine .inr ?_
      by_cases hjp : j = place
      · subst hjp
        rw [List.getElem?_eq_getElem hj, Option.some.injEq] at hplace
        exact ⟨_, List.mem_set hj _, by rw [hplace]⟩
      · exact ⟨results[j], List.mem_iff_getElem?.mpr ⟨j, by
          rw [List.getElem?_set_ne (Ne.symm hjp), List.getElem?_eq_getElem hj]⟩, rfl⟩
  · obtain hold | hnew := List.mem_or_eq_of_mem_set hp
    · exact hterm p (hknown p hold)
    · obtain ⟨rfl, htrue⟩ := Prod.mk.inj hnew
      exact hproven (Option.some.inj htrue).symm

theorem Inv.finish (h : Inv s) : (s.finish id).Inv := by
  rw [State.finish]
  split
  · rename_i results hget
    obtain ⟨hrev, hzero, hall, hknown⟩ := h.aborts _ (List.mem_of_getElem? hget)
    split
    · refine h.setAbort rfl rfl rfl (fun hrev => hrev) (fun process hp => ?_)
        (fun _ hp => hp) rfl ?_
      · by_cases hmem : (process, some true) ∈ results
        · exact .inr (hknown process hmem)
        · exact .inl (List.mem_filter.mpr ⟨hp, decide_eq_true hmem⟩)
      · cases hnormally : results.all (·.2 = some true) with
        | false => trivial
        | true =>
            refine ⟨hrev, hzero, fun process hp => ?_⟩
            obtain hdone | ⟨result, hmem, rfl⟩ := hall process hp
            · exact hdone
            · have htrue := of_decide_eq_true (List.all_eq_true.mp hnormally result hmem)
              exact hknown result.1 (htrue ▸ hmem)
    · exact h
  · exact h

/-! ## runs -/

/-- No cancellation reaches a spawn call at its last lock, and the termination of a process
in a spawn call is proven. -/
def Graceful (s : State) : Action → Prop
  | .cancel id | .giveUp id =>
      ∀ spawn, s.spawns[id]? = some spawn → ∀ result, spawn.stage ≠ .leaving result
  | .terminated _ proven => proven = true
  | _ => True

/-- **An action keeps the invariant.** -/
theorem Inv.act (h : Inv s) {action : Action} (hgraceful : s.Graceful action) :
    (s.act action).Inv := by
  cases action with
  | spawn =>
      refine ⟨?_, fun spawn hspawn hlate => ?_, fun process hp => ?_, fun abort habort =>
        (h.aborts abort habort).mono (fun hrev => hrev) (fun _ hzero => ⟨hzero, rfl⟩)
          (fun _ hp => hp)⟩
      · rw [State.act, List.countP_append, ← h.counted]
        rfl
      · obtain hold | hnew := List.mem_append.mp hspawn
        · exact h.late spawn hold hlate
        · rw [List.mem_singleton.mp hnew] at hlate ⊢
          exact ⟨hlate, .inl rfl⟩
      · obtain ⟨spawn, hmem, hholds⟩ | hother := h.held process hp
        · exact .inl ⟨spawn, List.mem_append_left _ hmem, hholds⟩
        · exact .inr hother
  | cancel id => exact h.cancel hgraceful
  | enter id => exact h.enter
  | factoryDone id success => exact h.factoryDone success
  | resume id => exact h.resume
  | register id => exact h.register
  | terminated id proven =>
      obtain rfl : proven = true := hgraceful
      exact h.spawnTerminated
  | leave id => exact h.leave
  | giveUp id => exact (h.cancel hgraceful).setReapers _
  | reap id proven => exact h.reap proven
  | exit process =>
      rw [State.act]
      split
      · exact h.frame rfl rfl rfl (fun hrev => hrev) (fun _ hp => .inl hp)
          (fun _ hp => List.mem_cons_of_mem _ hp) fun _ ha => .inl ha
      · exact h
  | discard process =>
      rw [State.act]
      split
      · rename_i hterm
        exact h.discardProcess hterm
      · exact h
  | abort =>
      refine h.frame rfl rfl rfl (fun hrev => hrev) (fun _ hp => .inl hp) (fun _ hp => hp)
        fun a ha => ?_
      obtain hold | hnew := List.mem_append.mp ha
      · exact .inl hold
      · rw [List.mem_singleton.mp hnew]
        exact .inr trivial
  | revoke id =>
      rw [State.act]
      split
      · exact h.setAbort rfl rfl rfl (fun _ => rfl) (fun _ hp => .inl hp) (fun _ hp => hp) rfl rfl
      · exact h
  | sweep id =>
      rw [State.act]
      split
      · rename_i hcond
        exact h.sweep hcond.1 hcond.2
      · exact h
  | timeout id =>
      rw [State.act]
      split
      · exact h.setAbort rfl rfl rfl (fun hrev => hrev) (fun _ hp => .inl hp)
          (fun _ hp => hp) rfl trivial
      · exact h
  | swept id place proven =>
      rw [State.act]
      split
      · rename_i results hget
        split
        · rename_i process hplace
          exact h.swept hget hplace proven
        · exact h
      · exact h
  | finish id => exact h.finish

/-- The states of the runs in which each action is graceful. -/
inductive Reached : State → Prop
  | start : Reached {}
  | next {s : State} {action : Action} : Reached s → s.Graceful action → Reached (s.act action)

theorem Reached.inv (h : Reached s) : s.Inv := by
  induction h with
  | start => exact inv_init
  | next _ hgraceful ih => exact ih.act hgraceful

/-- **No process outlives its registry** in the runs in which a spawn call proves the
terminations it makes and is not cancelled at its last lock. -/
theorem registry_keeps (h : Reached s) : s.Kept := by
  have hinv := h.inv
  refine ⟨hinv.counted, fun spawn hspawn hlate process hleft => ?_, fun process hp => ?_,
    fun hdone process hp => (hinv.aborts _ hdone).2.2 process hp⟩
  · obtain hstage | hstage := (hinv.late spawn hspawn hlate).2
    · rw [hleft] at hstage
      contradiction
    · exact absurd (hleft.symm.trans hstage) (by simp)
  · obtain hspawn | hother := hinv.held process hp
    · exact .inl hspawn
    · exact .inr (.inr hother)

/-- Whether the spawn call stands at its last lock. -/
def isLeaving (s : State) (id : Nat) : Bool :=
  match s.spawns[id]? with
  | some { stage := .leaving _, .. } => true
  | _ => false

/-- Whether an action is graceful. -/
def gracefulAt (s : State) : Action → Bool
  | .cancel id | .giveUp id => !s.isLeaving id
  | .terminated _ proven => proven
  | _ => true

theorem graceful_of_gracefulAt {action : Action} (h : s.gracefulAt action = true) :
    s.Graceful action := by
  have hquiet : ∀ id, (!s.isLeaving id) = true → ∀ spawn, s.spawns[id]? = some spawn →
      ∀ result, spawn.stage ≠ .leaving result := by
    intro id hnone spawn hspawn result hstage
    obtain ⟨stage, late⟩ := spawn
    obtain rfl : stage = .leaving result := hstage
    simp [isLeaving, hspawn] at hnone
  cases action with
  | cancel id | giveUp id => exact hquiet id h
  | terminated => exact h
  | _ => trivial

/-- Each action of a run is graceful where it happens. -/
def gracefulRun (s : State) : List Action → Bool
  | [] => true
  | action :: actions => s.gracefulAt action && (s.act action).gracefulRun actions

theorem Reached.run {actions : List Action} (h : Reached s)
    (hgraceful : s.gracefulRun actions = true) : Reached (s.run actions) := by
  induction actions generalizing s with
  | nil => exact h
  | cons action actions ih =>
      rw [gracefulRun, Bool.and_eq_true] at hgraceful
      exact ih (.next h (graceful_of_gracefulAt hgraceful.1)) hgraceful.2

/-- Two processes: the caller of the first gives up while its factory runs, and a reaper
terminates it; the second is registered, and an abort that ends normally terminates it. -/
theorem registry_keeps_sample :
    let s := State.run {} [.spawn, .enter 0, .factoryDone 0 true, .resume 0, .register 0, .leave 0,
      .spawn, .enter 1, .giveUp 1, .factoryDone 1 true, .resume 1, .terminated 1 true, .leave 1,
      .reap 0 true, .abort, .revoke 0, .sweep 0, .swept 0 0 true, .finish 0]
    s.Kept ∧ s.produced = 2 ∧ ∀ process < 2, process ∈ s.terminated := by
  intro s
  have hkept : s.Kept := registry_keeps (Reached.start.run (by decide))
  have hproduced : s.produced = 2 := by decide
  exact ⟨hkept, hproduced, fun process hp => hkept.swept (by decide) process (hproduced ▸ hp)⟩

/-- **A process whose termination is not proven in a spawn call** is lost: nobody holds it,
and an abort returns normally beside it. -/
theorem unproven_spawn_lost : ¬∀ actions : List Action, (run {} actions).Kept := by
  intro h
  have hall := (h [.spawn, .enter 0, .cancel 0, .factoryDone 0 true, .resume 0, .terminated 0 false,
    .leave 0, .abort, .revoke 0, .sweep 0, .finish 0]).swept (by decide) 0 (by decide)
  revert hall
  decide

end State

end OpenCollab.Process.Registry
