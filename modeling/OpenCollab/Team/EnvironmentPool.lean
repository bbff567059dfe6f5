import OpenCollab.Lib.Tally

/-!
# OpenCollab.Team.EnvironmentPool

`SessionEnvironmentPool` (`adapters/session_environments.py`): one pool for each
isolation strategy, and a table that counts for each environment the acquisitions
that still hold it.  The last of them, or the final release, passes the environment
to the strategy pool it came from.

The strategy pools are other code: an acquisition waits for the answer of one, and so
does a release.  A task is what such a wait interrupts; every event runs from one wait
to the next.  What the run has done stands in a log, latest entry first.

* `View` — what a state says about one environment, with one lemma for each update of
  the state (`view_note`, `view_setTask`, `view_drop`, `view_enter`, …);
* `View.Ok` — how acquisitions, references, releases under way and entries of the log
  belong together, with one lemma for each thing that can happen to an environment;
* `sweepFrom_cases` — the loop of the final release;
* `inv_step` — every sound event keeps the invariant, and the entries it adds to the log
  are justified by those before them.
-/

namespace OpenCollab.EnvPool

/-! ## data -/

/-- An environment: one a caller brings along, or one a strategy pool made. -/
inductive Env where
  | caller (n : Nat)
  | made (n : Nat)
deriving DecidableEq

def Env.isMade : Env → Bool
  | .caller _ => false
  | .made _ => true

/-- What has happened: an environment was entered under its strategy, acquired,
handed to its caller, given back, passed to its strategy pool (by the final release or
not), released there; the pool was closed, swept, and its release finished. -/
inductive Entry where
  | obtained (env : Env) (strategy : String)
  | granted (env : Env)
  | returned (env : Env)
  | asked (env : Env)
  | passed (env : Env) (strategy : String) (final : Bool)
  | freed (env : Env)
  | closing
  | swept
  | finished
deriving DecidableEq

/-- What a wait interrupts: `acquire` in the strategy's `acquire`, in the release of an
environment it got too late, or in front of its `finally` block; `release_env`;
`_release` in front of its loop, in the loop, and behind it. -/
inductive Task where
  | acquiring (base : Env) (strategy : String)
  | abandoning (env : Env)
  | leaving (result : Option Env)
  | releasing (env : Env)
  | waiting
  | sweeping (env : Env) (rest : List Env)
  | closingPools
  | done
deriving DecidableEq

namespace Task

/-- The task is a call of `acquire`. -/
def isAcquire : Task → Bool
  | .acquiring _ _ | .abandoning _ | .leaving _ => true
  | _ => false

/-- The task waits for the strategy's release of `env`. -/
def pends (env : Env) : Task → Bool
  | .abandoning e | .releasing e | .sweeping e _ => e = env
  | _ => false

/-- The task is about to hand `env` to its caller. -/
def hands (env : Env) : Task → Bool
  | .leaving (some e) => e = env
  | _ => false

end Task

structure Pool where
  closed : Bool := false
  inflight : Nat := 0
  owners : List (Env × String) := []
  references : Env → Nat := fun _ => 0
  tasks : List Task := []
  log : List Entry := []

/-- What can happen next. -/
inductive Event where
  | acquire (base : Env) (strategy : String) (valid : Bool)
  | acquired (i : Nat) (result : Option Env)
  | answered (i : Nat) (ok : Bool)
  | left (i : Nat)
  | releaseEnv (env : Env)
  | release
  | sweep (i : Nat)
  | poolsReleased (i : Nat) (ok : Bool)
deriving DecidableEq

namespace Pool

/-! ## the code -/

def note (p : Pool) (entry : Entry) : Pool := { p with log := entry :: p.log }

def addTask (p : Pool) (task : Task) : Pool := { p with tasks := p.tasks ++ [task] }

def setTask (p : Pool) (i : Nat) (task : Task) : Pool := { p with tasks := p.tasks.set i task }

/-- `self._references[id(env)] = n`. -/
def setReferences (p : Pool) (env : Env) (n : Nat) : Pool :=
  { p with references := fun e => if e = env then n else p.references e }

/-- `self._owners.get(id(env))`: the strategy whose pool owns the environment. -/
def ownerOf (p : Pool) (env : Env) : Option String :=
  (p.owners.find? fun owner => owner.1 = env).map Prod.snd

/-- `id(env) in self._owners`. -/
def owns (p : Pool) (env : Env) : Bool := (p.ownerOf env).isSome

/-- `self._owners.setdefault(id(env), (env, pool))`. -/
def enter (p : Pool) (env : Env) (strategy : String) : Pool :=
  if p.owns env then p
  else { p with owners := p.owners ++ [(env, strategy)] }.note (.obtained env strategy)

/-- `release_env` up to the strategy's `release_env`, and whether that is called. -/
def beginRelease (p : Pool) (env : Env) (final : Bool) : Pool × Bool :=
  match p.ownerOf env with
  | none => (p, false)
  | some strategy =>
      if 1 < p.references env then (p.setReferences env (p.references env - 1), false)
      else (p.note (.passed env strategy final), true)

/-- `release_env` behind a strategy's `release_env` that succeeded. -/
def drop (p : Pool) (env : Env) : Pool :=
  { p with owners := p.owners.filter fun owner => owner.1 ≠ env }.setReferences env 0
    |>.note (.freed env)

/-- The loop of `_release` over the environments left, up to the next that is passed
to its strategy pool. -/
def sweepFrom (p : Pool) : List Env → Pool × Option (Env × List Env)
  | [] => (p, none)
  | env :: rest =>
      let begun := (p.setReferences env 1).beginRelease env true
      if begun.2 then (begun.1, some (env, rest)) else sweepFrom begun.1 rest

/-- The loop of `_release` in task `i`. -/
def sweepOn (p : Pool) (i : Nat) (envs : List Env) : Pool :=
  let next := p.sweepFrom envs
  next.1.setTask i (match next.2 with
    | none => .closingPools
    | some (env, rest) => .sweeping env rest)

/-- The answer of a strategy's `acquire`, up to the next wait of the acquisition. -/
def finishAcquire (p : Pool) (i : Nat) (base : Env) (strategy : String) (env : Env) : Pool :=
  let p :=
    if env ≠ base ∨ p.owns env then
      let p := p.enter env strategy
      p.setReferences env (p.references env + 1)
    else p
  if p.closed then
    let begun := p.beginRelease env false
    begun.1.setTask i (if begun.2 then .abandoning env else .leaving none)
  else (p.note (.granted env)).setTask i (.leaving (some env))

/-- One event; `none` when it cannot happen in this state. -/
def step (p : Pool) : Event → Option Pool
  | .acquire base strategy valid =>
      if p.closed then some p
      else some ({ p with inflight := p.inflight + 1 }.addTask
        (if valid then .acquiring base strategy else .leaving none))
  | .acquired i result =>
      match p.tasks[i]?, result with
      | some (.acquiring _ _), none => some (p.setTask i (.leaving none))
      | some (.acquiring base strategy), some env => some (p.finishAcquire i base strategy env)
      | _, _ => none
  | .answered i ok =>
      match p.tasks[i]? with
      | some (.abandoning env) => some ((if ok then p.drop env else p).setTask i (.leaving none))
      | some (.releasing env) => some ((if ok then p.drop env else p).setTask i .done)
      | some (.sweeping env rest) =>
          some (if ok then (p.drop env).sweepOn i rest else p.setTask i .done)
      | _ => none
  | .left i =>
      match p.tasks[i]? with
      | some (.leaving result) =>
          let p := { p with inflight := p.inflight - 1 }.setTask i .done
          some (match result with
            | none => p
            | some env => p.note (.returned env))
      | _ => none
  | .releaseEnv env =>
      let begun := (p.note (.asked env)).beginRelease env false
      some (if begun.2 then begun.1.addTask (.releasing env) else begun.1)
  | .release => some (({ p with closed := true }.note .closing).addTask .waiting)
  | .sweep i =>
      if p.tasks[i]? = some .waiting ∧ p.inflight = 0 then
        some ((p.note .swept).sweepOn i (p.owners.map Prod.fst).reverse)
      else none
  | .poolsReleased i ok =>
      if p.tasks[i]? = some .closingPools then
        some ((if ok then { p with owners := [] }.note .finished else p).setTask i .done)
      else none

/-- A run of events. -/
def run (p : Pool) : List Event → Option Pool
  | [] => some p
  | e :: events => (p.step e).bind fun p' => p'.run events

variable {p p' : Pool} {env e : Env} {i : Nat} {t : Task}

/-! ## tables and tasks -/

/-- How many tasks wait for the strategy's release of `e`. -/
def pending (p : Pool) (e : Env) : Nat := p.tasks.countP (Task.pends e)

/-- How many acquisitions are about to hand `e` to their callers. -/
def handing (p : Pool) (e : Env) : Nat := p.tasks.countP (Task.hands e)

/-- How many calls of `acquire` are under way. -/
def acquiring (p : Pool) : Nat := p.tasks.countP Task.isAcquire

theorem ownerOf_mem {strategy : String} (h : p.ownerOf env = some strategy) :
    (env, strategy) ∈ p.owners := by
  simp only [ownerOf, Option.map_eq_some_iff] at h
  obtain ⟨owner, hfind, hs⟩ := h
  have henv := List.find?_some hfind
  simp only [decide_eq_true_eq] at henv
  have hmem := List.mem_of_find?_eq_some hfind
  rw [← henv, ← hs]
  exact hmem

theorem owns_iff : p.owns e = true ↔ ∃ owner ∈ p.owners, owner.1 = e := by
  simp [owns, ownerOf]

@[simp] theorem owns_note (x : Entry) : (p.note x).owns e = p.owns e := rfl
@[simp] theorem owns_addTask : (p.addTask t).owns e = p.owns e := rfl
@[simp] theorem owns_setTask : (p.setTask i t).owns e = p.owns e := rfl
@[simp] theorem owns_setReferences (n : Nat) : (p.setReferences env n).owns e = p.owns e := rfl

theorem owns_enter (strategy : String) :
    (p.enter env strategy).owns e = true ↔ p.owns e = true ∨ e = env := by
  unfold enter
  by_cases h : p.owns env = true
  · rw [if_pos h]
    constructor
    · exact Or.inl
    · rintro (he | rfl)
      · exact he
      · exact h
  · rw [if_neg h]
    simp only [owns_iff, note, List.mem_append, List.mem_singleton]
    constructor
    · rintro ⟨owner, hmem | rfl, he⟩
      · exact .inl ⟨owner, hmem, he⟩
      · exact .inr he.symm
    · rintro (⟨owner, hmem, he⟩ | rfl)
      · exact ⟨owner, .inl hmem, he⟩
      · exact ⟨_, .inr rfl, rfl⟩

theorem owns_drop : (p.drop env).owns e = true ↔ p.owns e = true ∧ e ≠ env := by
  simp only [owns_iff, drop, note, setReferences, List.mem_filter, decide_eq_true_eq]
  constructor
  · rintro ⟨owner, ⟨hmem, hne⟩, rfl⟩
    exact ⟨⟨owner, hmem, rfl⟩, hne⟩
  · rintro ⟨⟨owner, hmem, rfl⟩, hne⟩
    exact ⟨owner, ⟨hmem, hne⟩, rfl⟩

theorem pending_setTask (h : p.tasks[i]? = some t) (t' : Task) (e : Env) :
    (p.setTask i t').pending e + (t.pends e).toNat = p.pending e + (t'.pends e).toNat :=
  Lib.countP_set _ t' h

theorem handing_setTask (h : p.tasks[i]? = some t) (t' : Task) (e : Env) :
    (p.setTask i t').handing e + (t.hands e).toNat = p.handing e + (t'.hands e).toNat :=
  Lib.countP_set _ t' h

theorem acquiring_setTask (h : p.tasks[i]? = some t) (t' : Task) :
    (p.setTask i t').acquiring + t.isAcquire.toNat = p.acquiring + t'.isAcquire.toNat :=
  Lib.countP_set _ t' h

@[simp] theorem pending_addTask : (p.addTask t).pending e = p.pending e + (t.pends e).toNat := by
  simp only [pending, addTask, List.countP_append, List.countP_singleton]
  cases t.pends e <;> rfl

@[simp] theorem handing_addTask : (p.addTask t).handing e = p.handing e + (t.hands e).toNat := by
  simp only [handing, addTask, List.countP_append, List.countP_singleton]
  cases t.hands e <;> rfl

@[simp] theorem acquiring_addTask : (p.addTask t).acquiring = p.acquiring + t.isAcquire.toNat := by
  simp only [acquiring, addTask, List.countP_append, List.countP_singleton]
  cases t.isAcquire <;> rfl

/-- Whoever hands an environment over is a call of `acquire`. -/
theorem handing_le_acquiring (p : Pool) (e : Env) : p.handing e ≤ p.acquiring := by
  apply List.countP_mono_left
  intro t _ ht
  cases t with
  | leaving => rfl
  | _ => cases ht

/-! ## the log -/

/-- What must have happened before an entry. -/
def Justified (past : List Entry) : Entry → Prop
  | .granted env => .closing ∉ past ∧
    (env.isMade = true → ∃ strategy, .obtained env strategy ∈ past)
  | .returned env => .freed env ∉ past
  | .passed env strategy final =>
      env.isMade = true ∧ .obtained env strategy ∈ past ∧ .freed env ∉ past ∧
        (final = true ∨ past.count (.granted env) ≤ past.count (.asked env))
  | .freed env => .freed env ∉ past
  | .finished => ∀ env strategy, .obtained env strategy ∈ past → .freed env ∈ past
  | _ => True

/-- Every entry is justified by those before it. -/
def Fine : List Entry → Prop
  | [] => True
  | entry :: past => Justified past entry ∧ Fine past

/-! ## one environment -/

/-- What a state says about one environment: whether it is owned, the references that
are counted for it, the tasks that wait for its release or are about to hand it over,
and the entries of the log that concern it. -/
structure View where
  owned : Bool
  references : Nat
  pending : Nat
  handing : Nat
  granted : Nat
  asked : Nat
  returned : Nat
  obtained : Bool
  freed : Bool
  forced : Bool

/-- `entry` enters `e` under some strategy. -/
def obtains (e : Env) : Entry → Bool
  | .obtained env _ => env = e
  | _ => false

/-- `entry` is the passing of `e` by the final release. -/
def forces (e : Env) : Entry → Bool
  | .passed env _ final => env = e && final
  | _ => false

def view (p : Pool) (e : Env) : View where
  owned := p.owns e
  references := if p.owns e then p.references e else 0
  pending := p.pending e
  handing := p.handing e
  granted := p.log.count (.granted e)
  asked := p.log.count (.asked e)
  returned := p.log.count (.returned e)
  obtained := p.log.any (obtains e)
  freed := decide (.freed e ∈ p.log)
  forced := p.log.any (forces e)

/-- **What holds of an environment a strategy pool made.**  At most one task waits for its
release; unless the final release took it, it has not been acquired more often than it
was given back and is still counted; what is about to be handed over is owned and not
being released. -/
structure View.Ok (v : View) : Prop where
  once : v.pending ≤ 1
  pendingOwned : 0 < v.pending → v.owned = true
  counted : v.owned = true → 1 ≤ v.references ∧ v.freed = false
  unowned : v.owned = false → v.references = 0
  held : v.forced = false → v.granted ≤ v.asked + if v.pending = 0 then v.references else 0
  back : v.asked ≤ v.returned
  total : v.granted = v.returned + v.handing
  handed : 0 < v.handing → v.owned = true ∧ v.pending = 0
  tracked : v.obtained = true → v.owned = true ∨ v.freed = true
  entered : 0 < v.granted → v.obtained = true

/-- The view after an entry. -/
def View.note (v : View) (e : Env) : Entry → View
  | .granted env => if env = e then { v with granted := v.granted + 1 } else v
  | .asked env => if env = e then { v with asked := v.asked + 1 } else v
  | .returned env => if env = e then { v with returned := v.returned + 1 } else v
  | .obtained env _ => if env = e then { v with obtained := true } else v
  | .freed env => if env = e then { v with freed := true } else v
  | .passed env _ final => if env = e ∧ final = true then { v with forced := true } else v
  | _ => v

theorem view_note (p : Pool) (x : Entry) (e : Env) : (p.note x).view e = (p.view e).note e x := by
  have hown : (p.note x).owns e = p.owns e := rfl
  have hpend : (p.note x).pending e = p.pending e := rfl
  have hhand : (p.note x).handing e = p.handing e := rfl
  have href : (p.note x).references e = p.references e := rfl
  have hlog : (p.note x).log = x :: p.log := rfl
  simp only [view, hown, hpend, hhand, href, hlog, List.count_cons, List.any_cons, List.mem_cons]
  cases x with
  | granted env => by_cases h : env = e <;> simp [View.note, obtains, forces, h]
  | asked env => by_cases h : env = e <;> simp [View.note, obtains, forces, h]
  | returned env => by_cases h : env = e <;> simp [View.note, obtains, forces, h]
  | obtained env strategy => by_cases h : env = e <;> simp [View.note, obtains, forces, h]
  | freed env =>
      by_cases h : env = e
      · simp [View.note, obtains, forces, h]
      · have h' : ¬ e = env := fun heq => h heq.symm
        simp [View.note, obtains, forces, h, h']
  | passed env strategy final =>
      by_cases h : env = e <;> cases final <;> simp [View.note, obtains, forces, h]
  | _ => simp [View.note, obtains, forces]

/-- The view when task `i` has gone from `t` to `t'`. -/
theorem view_setTask (hi : p.tasks[i]? = some t) (t' : Task) (e : Env) :
    (p.setTask i t').view e =
      { p.view e with
        pending := p.pending e - (t.pends e).toNat + (t'.pends e).toNat,
        handing := p.handing e - (t.hands e).toNat + (t'.hands e).toNat } := by
  have hp := pending_setTask hi t' e
  have hh := handing_setTask hi t' e
  have hp' : (t.pends e).toNat ≤ p.pending e := by
    cases ht : t.pends e with
    | false => exact Nat.zero_le _
    | true => exact Lib.countP_pos_of_getElem? hi ht
  have hh' : (t.hands e).toNat ≤ p.handing e := by
    cases ht : t.hands e with
    | false => exact Nat.zero_le _
    | true => exact Lib.countP_pos_of_getElem? hi ht
  have hp'' : (p.setTask i t').pending e =
      p.pending e - (t.pends e).toNat + (t'.pends e).toNat := by omega
  have hh'' : (p.setTask i t').handing e =
      p.handing e - (t.hands e).toNat + (t'.hands e).toNat := by omega
  simp only [view, hp'', hh'']
  rfl

theorem view_addTask (p : Pool) (t : Task) (e : Env) :
    (p.addTask t).view e =
      { p.view e with
        pending := p.pending e + (t.pends e).toNat,
        handing := p.handing e + (t.hands e).toNat } := by
  simp only [view, pending_addTask, handing_addTask]
  rfl

theorem view_setReferences (p : Pool) (env : Env) (n : Nat) (e : Env) :
    (p.setReferences env n).view e =
      if e = env ∧ p.owns e = true then { p.view e with references := n } else p.view e := by
  have hown : (p.setReferences env n).owns e = p.owns e := rfl
  have hpend : (p.setReferences env n).pending e = p.pending e := rfl
  have hhand : (p.setReferences env n).handing e = p.handing e := rfl
  have hlog : (p.setReferences env n).log = p.log := rfl
  have href : (p.setReferences env n).references e = if e = env then n else p.references e := rfl
  simp only [view, hown, hpend, hhand, hlog, href]
  by_cases he : e = env <;> cases p.owns e <;> simp [he]

theorem view_drop (p : Pool) (env e : Env) :
    (p.drop env).view e =
      if e = env then { p.view e with owned := false, references := 0, freed := true }
      else p.view e := by
  have hown := @owns_drop p env e
  have hpend : (p.drop env).pending e = p.pending e := rfl
  have hhand : (p.drop env).handing e = p.handing e := rfl
  have hlog : (p.drop env).log = .freed env :: p.log := rfl
  by_cases he : e = env
  · subst he
    have hnot : (p.drop e).owns e = false := by
      rw [← Bool.not_eq_true, hown]
      exact fun h => h.2 rfl
    simp only [view, hnot, if_true, hpend, hhand, hlog]
    simp [obtains, forces]
  · have hsame : (p.drop env).owns e = p.owns e := by
      rw [Bool.eq_iff_iff, hown]
      exact ⟨fun h => h.1, fun h => ⟨h, he⟩⟩
    have href : (p.drop env).references e = p.references e := if_neg he
    simp only [view, hsame, if_neg he, hpend, hhand, hlog, href]
    simp [obtains, forces, he]

/-! ## the rest of the state -/

/-- What holds of the tables, the tasks and the log beside the single environments. -/
structure Base (p : Pool) : Prop where
  made : ∀ owner ∈ p.owners, owner.1.isMade = true ∧ .obtained owner.1 owner.2 ∈ p.log
  freedMade : ∀ e, .freed e ∈ p.log → e.isMade = true
  obtainedMade : ∀ e strategy, .obtained e strategy ∈ p.log → e.isMade = true
  inflight : p.inflight = p.acquiring
  quiet : .swept ∈ p.log → p.closed = true ∧ p.inflight = 0
  closedLog : .closing ∈ p.log → p.closed = true
  waiting : .waiting ∈ p.tasks → p.closed = true
  sweeping : ∀ e rest, .sweeping e rest ∈ p.tasks → .swept ∈ p.log ∧
    ∀ owner ∈ p.owners, owner.1 = e ∨ owner.1 ∈ rest
  pools : .closingPools ∈ p.tasks → .swept ∈ p.log ∧ p.owners = []
  pendsMade : ∀ x ∈ p.tasks, ∀ e, x.pends e = true → e.isMade = true

/-- What an entry must meet to be noted. -/
def Admissible (p : Pool) : Entry → Prop
  | .obtained e _ | .freed e => e.isMade = true
  | .swept => p.closed = true ∧ p.inflight = 0
  | .closing => p.closed = true
  | _ => True

theorem Base.note (h : p.Base) {x : Entry} (hx : p.Admissible x) : (p.note x).Base := by
  have hin : ∀ y : Entry, y ∈ p.log → y ∈ (p.note x).log := fun y hy => List.mem_cons_of_mem _ hy
  have hout : ∀ y : Entry, y ∈ (p.note x).log → y = x ∨ y ∈ p.log := fun y hy => List.mem_cons.mp hy
  constructor
  · intro owner ho
    exact ⟨(h.made owner ho).1, hin _ (h.made owner ho).2⟩
  · intro e he
    rcases hout _ he with rfl | he
    · exact hx
    · exact h.freedMade e he
  · intro e strategy he
    rcases hout _ he with rfl | he
    · exact hx
    · exact h.obtainedMade e strategy he
  · exact h.inflight
  · intro hs
    rcases hout _ hs with rfl | hs
    · exact hx
    · exact h.quiet hs
  · intro hs
    rcases hout _ hs with rfl | hs
    · exact hx
    · exact h.closedLog hs
  · exact h.waiting
  · intro e rest hm
    exact ⟨hin _ (h.sweeping e rest hm).1, (h.sweeping e rest hm).2⟩
  · intro hm
    exact ⟨hin _ (h.pools hm).1, (h.pools hm).2⟩
  · exact h.pendsMade

/-- What a task must meet to be started. -/
def Startable (p : Pool) : Task → Prop
  | .waiting => p.closed = true
  | .sweeping e rest =>
      e.isMade = true ∧ .swept ∈ p.log ∧ ∀ owner ∈ p.owners, owner.1 = e ∨ owner.1 ∈ rest
  | .closingPools => .swept ∈ p.log ∧ p.owners = []
  | .abandoning e | .releasing e => e.isMade = true
  | _ => True

theorem leaving_startable (result : Option Env) (p : Pool) : p.Startable (.leaving result) :=
  trivial

theorem done_startable (p : Pool) : p.Startable .done := trivial

theorem Startable.made (h : p.Startable t) (ht : t.pends e = true) : e.isMade = true := by
  cases t with
  | abandoning env => rw [← of_decide_eq_true ht]; exact h
  | releasing env => rw [← of_decide_eq_true ht]; exact h
  | sweeping env rest => rw [← of_decide_eq_true ht]; exact h.1
  | _ => cases ht

/-- Tasks that come from those before and one that may be started. -/
theorem Base.tasks (h : p.Base) {tasks : List Task} {n : Nat}
    (hmem : ∀ x ∈ tasks, x ∈ p.tasks ∨ x = t)
    (ht : p.Startable t) (hcount : n = tasks.countP Task.isAcquire)
    (hquiet : .swept ∈ p.log → n = 0) : Base { p with tasks, inflight := n } := by
  constructor
  · exact h.made
  · exact h.freedMade
  · exact h.obtainedMade
  · exact hcount
  · intro hs
    exact ⟨(h.quiet hs).1, hquiet hs⟩
  · exact h.closedLog
  · intro hm
    rcases hmem _ hm with hm | rfl
    · exact h.waiting hm
    · exact ht
  · intro e rest hm
    rcases hmem _ hm with hm | rfl
    · exact h.sweeping e rest hm
    · exact ht.2
  · intro hm
    rcases hmem _ hm with hm | rfl
    · exact h.pools hm
    · exact ht
  · intro x hx e he
    rcases hmem _ hx with hx | rfl
    · exact h.pendsMade x hx e he
    · exact ht.made he

theorem Base.setTask (h : p.Base) (hi : p.tasks[i]? = some t) {t' : Task} (ht : p.Startable t')
    (ha : t'.isAcquire = t.isAcquire) : (p.setTask i t').Base := by
  have hacq := acquiring_setTask hi t'
  rw [ha] at hacq
  refine h.tasks (fun x hx => List.mem_or_eq_of_mem_set hx) ht ?_ fun hs => (h.quiet hs).2
  have := h.inflight
  simp only [acquiring, Pool.setTask] at this hacq ⊢
  omega

theorem Base.addTask (h : p.Base) (ht : p.Startable t) (ha : t.isAcquire = false) :
    (p.addTask t).Base := by
  refine h.tasks (fun x hx => by simpa using hx) ht ?_ fun hs => (h.quiet hs).2
  have := h.inflight
  simp only [acquiring] at this
  simp [this, ha]

theorem Base.setReferences (h : p.Base) (env : Env) (n : Nat) : (p.setReferences env n).Base :=
  ⟨h.made, h.freedMade, h.obtainedMade, h.inflight, h.quiet, h.closedLog, h.waiting, h.sweeping,
    h.pools, h.pendsMade⟩

theorem Base.drop (h : p.Base) (hm : env.isMade = true) : (p.drop env).Base := by
  have hsub : ∀ owner ∈ p.owners.filter fun owner => owner.1 ≠ env, owner ∈ p.owners :=
    fun owner ho => (List.mem_filter.mp ho).1
  have hfilter : Base { p with owners := p.owners.filter fun owner => owner.1 ≠ env } := by
    refine ⟨fun owner ho => h.made owner (hsub owner ho), h.freedMade, h.obtainedMade, h.inflight,
      h.quiet, h.closedLog, h.waiting, fun e rest hs => ?_, fun hp => ?_, h.pendsMade⟩
    · exact ⟨(h.sweeping e rest hs).1,
        fun owner ho => (h.sweeping e rest hs).2 owner (hsub owner ho)⟩
    · exact ⟨(h.pools hp).1, by simp [(h.pools hp).2]⟩
  exact (hfilter.setReferences env 0).note hm

theorem Base.enter (h : p.Base) (hm : env.isMade = true) (hs : .swept ∉ p.log) (strategy : String) :
    (p.enter env strategy).Base := by
  unfold Pool.enter
  split
  · exact h
  · have hnote := h.note (x := .obtained env strategy) hm
    refine ⟨?_, hnote.freedMade, hnote.obtainedMade, hnote.inflight, hnote.quiet, hnote.closedLog,
      hnote.waiting, fun e rest hm => absurd (h.sweeping e rest hm).1 hs,
      fun hm => absurd (h.pools hm).1 hs, h.pendsMade⟩
    intro owner ho
    rcases List.mem_append.mp ho with ho | ho
    · exact hnote.made owner ho
    · rw [List.mem_singleton.mp ho]
      exact ⟨hm, List.mem_cons_self⟩

/-- **What holds in every state** of a run of sound events. -/
structure Inv (p : Pool) : Prop where
  base : p.Base
  env : ∀ e, e.isMade = true → (p.view e).Ok
  fine : Fine p.log

/-! ## sound events -/

/-- A strategy pool answers an acquisition with its source, or with an environment it
made; and what it made has not been released, nor is that under way. -/
def Lends (p : Pool) (base env : Env) : Prop :=
  (env = base ∨ env.isMade = true) ∧
    (env.isMade = true → (env = base → p.owns env = true) ∧ .freed env ∉ p.log ∧ p.pending env = 0)

/-- What an event must not meet: an acquisition of an environment that is released or
being released, a caller who gives back more than it got or what the final release has
taken, and a second release of an environment while the first is under way. -/
def Sound (p : Pool) : Event → Prop
  | .acquired i (some env) => ∀ base strategy,
      p.tasks[i]? = some (.acquiring base strategy) → p.Lends base env
  | .releaseEnv env => env.isMade = true →
      p.log.count (.asked env) < p.log.count (.returned env) ∧
        (p.owns env = true → p.pending env = 0 ∧ p.log.any (forces env) = false)
  | .sweep _ => ∀ next,
      ((p.note .swept).sweepFrom (p.owners.map Prod.fst).reverse).2 = some next →
      p.pending next.1 = 0
  | .answered i true => ∀ env rest next, p.tasks[i]? = some (.sweeping env rest) →
      ((p.drop env).sweepFrom rest).2 = some next → p.pending next.1 = 0
  | _ => True

/-! ## the loop of the final release -/

/-- The loop stops behind the last environment, or at one it passes to its strategy
pool; those it has gone by are not owned any more. -/
theorem sweepFrom_cases (envs : List Env) : ∀ p : Pool,
    (∃ r, p.sweepFrom envs = ({ p with references := r }, none) ∧
      (∀ e, p.owns e = true → r e = p.references e) ∧ ∀ e ∈ envs, p.owns e = false) ∨
    (∃ r e rest strategy, p.sweepFrom envs =
        ({ p with references := r, log := .passed e strategy true :: p.log }, some (e, rest)) ∧
      p.ownerOf e = some strategy ∧ r e = 1 ∧
      (∀ x, p.owns x = true → x ≠ e → r x = p.references x) ∧
      ∀ x ∈ envs, p.owns x = true → x = e ∨ x ∈ rest) := by
  induction envs with
  | nil =>
      intro p
      exact .inl ⟨p.references, rfl, fun _ _ => rfl, fun _ he => by cases he⟩
  | cons env rest ih =>
      intro p
      cases ho : p.ownerOf env with
      | none =>
          have hnot : p.owns env = false := by simp [owns, ho]
          have hbegin : (p.setReferences env 1).beginRelease env true =
              (p.setReferences env 1, false) := by
            have ho' : (p.setReferences env 1).ownerOf env = none := ho
            simp [beginRelease, ho']
          have hne : ∀ x, p.owns x = true → x ≠ env := by
            rintro x hx rfl
            rw [hnot] at hx
            cases hx
          simp only [sweepFrom, hbegin, Bool.false_eq_true, if_false]
          rcases ih (p.setReferences env 1) with ⟨r, hr, hrefs, hall⟩ |
              ⟨r, e, rest', strategy, hr, hown, hone, hrefs, hall⟩
          · refine .inl ⟨r, hr, fun x hx => ?_, fun x hx => ?_⟩
            · rw [hrefs x hx]
              simp [setReferences, hne x hx]
            · rcases List.mem_cons.mp hx with rfl | hx
              · exact hnot
              · exact hall x hx
          · refine .inr ⟨r, e, rest', strategy, hr, hown, hone, fun x hx hxe => ?_,
              fun x hx hxo => ?_⟩
            · rw [hrefs x hx hxe]
              simp [setReferences, hne x hx]
            · rcases List.mem_cons.mp hx with rfl | hx
              · exact absurd rfl (hne _ hxo)
              · exact hall x hx hxo
      | some strategy =>
          have hbegin : (p.setReferences env 1).beginRelease env true =
              ((p.setReferences env 1).note (.passed env strategy true), true) := by
            have ho' : (p.setReferences env 1).ownerOf env = some strategy := ho
            have hone : (p.setReferences env 1).references env = 1 := by simp [setReferences]
            simp [beginRelease, ho', hone]
          simp only [sweepFrom, hbegin, if_true]
          refine .inr ⟨fun x => if x = env then 1 else p.references x, env, rest, strategy, rfl, ho,
            if_pos rfl, fun x _ hxe => ?_, fun x hx _ => ?_⟩
          · exact if_neg hxe
          · exact List.mem_cons.mp hx


/-! ## views over one event -/

namespace View.Ok

variable {v : View}

/-- Another acquisition of an environment that is not being released. -/
theorem grant (h : v.Ok) {n : Nat} (hn : v.references + 1 ≤ n) (hp : v.pending = 0)
    (hf : v.freed = false) :
    Ok { v with
      owned := true, references := n, obtained := true,
      granted := v.granted + 1, handing := v.handing + 1 } := by
  obtain ⟨h1, h2, h3, h4, h5, h6, h7, h8, h9, h10⟩ := h
  constructor <;> grind

/-- An environment that comes too late and is still held by others. -/
theorem hold (h : v.Ok) {n : Nat} (hn : 1 ≤ n) (hle : v.references ≤ n) (hp : v.pending = 0)
    (hf : v.freed = false) : Ok { v with owned := true, references := n, obtained := true } := by
  obtain ⟨h1, h2, h3, h4, h5, h6, h7, h8, h9, h10⟩ := h
  constructor <;> grind

/-- An environment that comes too late and is held by no one else. -/
theorem passNew (h : v.Ok) (ho : v.owned = false) (hf : v.freed = false) {n : Nat} (hn : 1 ≤ n) :
    v.granted = 0 ∧
      Ok { v with owned := true, references := n, obtained := true, pending := 1 } := by
  obtain ⟨h1, h2, h3, h4, h5, h6, h7, h8, h9, h10⟩ := h
  have hzero : v.granted = 0 := by grind
  refine ⟨hzero, ?_⟩
  constructor <;> grind

/-- The final release passes it. -/
theorem force (h : v.Ok) (ho : v.owned = true) (hh : v.handing = 0) :
    Ok { v with references := 1, pending := 1, forced := true } := by
  obtain ⟨h1, h2, h3, h4, h5, h6, h7, h8, h9, h10⟩ := h
  constructor <;> grind

/-- The strategy pool has released it. -/
theorem free (h : v.Ok) (hp : v.pending = 1) :
    Ok { v with owned := false, references := 0, freed := true, pending := 0 } := by
  obtain ⟨h1, h2, h3, h4, h5, h6, h7, h8, h9, h10⟩ := h
  constructor <;> grind

/-- The strategy pool could not release it. -/
theorem refuse (h : v.Ok) (hp : v.pending = 1) : Ok { v with pending := 0 } := by
  obtain ⟨h1, h2, h3, h4, h5, h6, h7, h8, h9, h10⟩ := h
  constructor <;> grind

/-- A caller gives one of several acquisitions back. -/
theorem giveBack (h : v.Ok) (hr : v.asked < v.returned) (hp : v.pending = 0)
    (hn : 1 < v.references) :
    Ok { v with asked := v.asked + 1, references := v.references - 1 } := by
  obtain ⟨h1, h2, h3, h4, h5, h6, h7, h8, h9, h10⟩ := h
  constructor <;> grind

/-- A caller gives back what is not owned any more. -/
theorem giveNothing (h : v.Ok) (hr : v.asked < v.returned) (ho : v.owned = false) :
    Ok { v with asked := v.asked + 1 } := by
  obtain ⟨h1, h2, h3, h4, h5, h6, h7, h8, h9, h10⟩ := h
  constructor <;> grind

/-- A caller gives the last acquisition back. -/
theorem giveLast (h : v.Ok) (hr : v.asked < v.returned) (hp : v.pending = 0)
    (ho : v.owned = true) (hn : v.references ≤ 1) (hf : v.forced = false) :
    v.granted ≤ v.asked + 1 ∧ Ok { v with asked := v.asked + 1, pending := 1 } := by
  obtain ⟨h1, h2, h3, h4, h5, h6, h7, h8, h9, h10⟩ := h
  have hle : v.granted ≤ v.asked + 1 := by
    have := h5 hf
    rw [if_pos hp] at this
    omega
  have hzero : v.handing = 0 := by omega
  refine ⟨hle, ?_⟩
  constructor <;> grind

/-- An acquisition hands its environment over. -/
theorem handOver (h : v.Ok) (hh : 0 < v.handing) :
    Ok { v with handing := v.handing - 1, returned := v.returned + 1 } := by
  obtain ⟨h1, h2, h3, h4, h5, h6, h7, h8, h9, h10⟩ := h
  constructor <;> grind

end View.Ok

/-! ## one event -/

theorem made_iff {p : Pool} (h : p.Base) (ho : p.owns env = true) : env.isMade = true := by
  obtain ⟨owner, hmem, rfl⟩ := owns_iff.mp ho
  exact (h.made owner hmem).1

/-- No acquisition is under way while the final release sweeps. -/
theorem Base.not_swept (h : p.Base) (hi : p.tasks[i]? = some t) (ht : t.isAcquire = true) :
    .swept ∉ p.log := by
  intro hs
  have hzero := (h.quiet hs).2
  have hpos : 0 < p.acquiring := Lib.countP_pos_of_getElem? hi ht
  have := h.inflight
  omega

theorem Base.handing_eq_zero (h : p.Base) (hs : .swept ∈ p.log) (e : Env) : p.handing e = 0 := by
  have h1 := (h.quiet hs).2
  have h2 := h.inflight
  have h3 := handing_le_acquiring p e
  omega

theorem Base.obtained_of_owns (h : p.Base) (ho : p.owns env = true) :
    p.log.any (obtains env) = true := by
  obtain ⟨owner, hmem, rfl⟩ := owns_iff.mp ho
  exact List.any_eq_true.mpr ⟨_, (h.made owner hmem).2, by simp [obtains]⟩

theorem view_enter (h : p.Base) (env : Env) (strategy : String) (e : Env) :
    (p.enter env strategy).view e =
      if e = env then
        { p.view e with owned := true, references := p.references e, obtained := true }
      else p.view e := by
  unfold enter
  by_cases ho : p.owns env = true
  · rw [if_pos ho]
    by_cases he : e = env
    · subst he
      simp [view, ho, h.obtained_of_owns ho]
    · rw [if_neg he]
  · rw [if_neg ho, view_note]
    by_cases he : e = env
    · subst he
      have hown : owns { p with owners := p.owners ++ [(e, strategy)] } e = true :=
        owns_iff.mpr ⟨(e, strategy), by simp, rfl⟩
      simp only [View.note, if_true, view, hown]
      rfl
    · have hown : owns { p with owners := p.owners ++ [(env, strategy)] } e = p.owns e := by
        rw [Bool.eq_iff_iff, owns_iff, owns_iff]
        simp only [List.mem_append, List.mem_singleton]
        constructor
        · rintro ⟨owner, hmem | rfl, heq⟩
          · exact ⟨owner, hmem, heq⟩
          · exact absurd heq.symm he
        · rintro ⟨owner, hmem, heq⟩
          exact ⟨owner, .inl hmem, heq⟩
      have hne : ¬ env = e := fun heq => he heq.symm
      simp only [View.note, if_neg hne, if_neg he, view, hown]
      rfl

/-- `acquire` begins. -/
theorem inv_acquire (h : p.Inv) (hc : p.closed = false) (ht : p.Startable t)
    (ha : t.isAcquire = true) (hp : ∀ e, t.pends e = false) (hh : ∀ e, t.hands e = false) :
    ({ p with inflight := p.inflight + 1 }.addTask t).Inv := by
  refine ⟨?_, fun e he => ?_, h.fine⟩
  · refine h.base.tasks (fun x hx => by simpa using hx) ht ?_ fun hs => ?_
    · have := h.base.inflight
      simp only [acquiring] at this
      simp [this, ha]
    · have := (h.base.quiet hs).1
      rw [hc] at this
      cases this
  · have hview : ({ p with inflight := p.inflight + 1 }.addTask t).view e = p.view e := by
      have := view_addTask p t e
      rw [hp e, hh e] at this
      exact this
    rw [hview]
    exact h.env e he

/-- `release` begins. -/
theorem inv_release (h : p.Inv) :
    (({ p with closed := true }.note .closing).addTask .waiting).Inv := by
  have hbase : Base { p with closed := true } :=
    ⟨h.base.made, h.base.freedMade, h.base.obtainedMade, h.base.inflight,
      fun hs => ⟨rfl, (h.base.quiet hs).2⟩, fun _ => rfl, fun _ => rfl, h.base.sweeping,
      h.base.pools, h.base.pendsMade⟩
  refine ⟨(hbase.note (x := .closing) rfl).addTask rfl rfl, fun e he => ?_, trivial, h.fine⟩
  rw [view_addTask, view_note]
  exact h.env e he

/-- A task that concerns no environment ends in another such. -/
theorem inv_setTask (h : p.Inv) (hi : p.tasks[i]? = some t) {t' : Task} (ht : p.Startable t')
    (ha : t'.isAcquire = t.isAcquire) (hp : ∀ e, t.pends e = false ∧ t'.pends e = false)
    (hh : ∀ e, t.hands e = false ∧ t'.hands e = false) : (p.setTask i t').Inv := by
  refine ⟨h.base.setTask hi ht ha, fun e he => ?_, h.fine⟩
  rw [view_setTask hi, (hp e).1, (hp e).2, (hh e).1, (hh e).2]
  exact h.env e he

/-- `acquire` ends. -/
theorem inv_left (h : p.Inv) {result : Option Env} :
    p.tasks[i]? = some (.leaving result) → Inv (match result with
      | none => { p with inflight := p.inflight - 1 }.setTask i .done
      | some env => ({ p with inflight := p.inflight - 1 }.setTask i .done).note
        (.returned env)) := by
  intro hi
  have hbase : Base ({ p with inflight := p.inflight - 1 }.setTask i .done) := by
    refine h.base.tasks (fun x hx => List.mem_or_eq_of_mem_set hx) trivial ?_ fun hs => ?_
    · have hacq := acquiring_setTask hi .done
      have := h.base.inflight
      simp only [Task.isAcquire, Bool.toNat_true, Bool.toNat_false, acquiring, setTask] at hacq this
      simp only
      omega
    · have := (h.base.quiet hs).2
      show p.inflight - 1 = 0
      omega
  have hview : ∀ e, ({ p with inflight := p.inflight - 1 }.setTask i .done).view e =
      (p.setTask i .done).view e := fun e => rfl
  cases result with
  | none =>
      refine ⟨hbase, fun e he => ?_, h.fine⟩
      rw [hview, view_setTask hi]
      exact h.env e he
  | some env =>
      have hpos : 0 < p.handing env := Lib.countP_pos_of_getElem? hi (by simp [Task.hands])
      refine ⟨hbase.note trivial, fun e he => ?_, ?_, h.fine⟩
      · rw [view_note, hview, view_setTask hi]
        by_cases hee : env = e
        · subst hee
          have hyes : Task.hands env (.leaving (some env)) = true := by simp [Task.hands]
          rw [hyes]
          simp only [View.note, if_true]
          exact (h.env env he).handOver hpos
        · have hno : Task.hands e (.leaving (some env)) = false := by simp [Task.hands, hee]
          rw [hno]
          simp only [View.note, if_neg hee]
          exact h.env e he
      · intro hf
        have hmade := h.base.freedMade env hf
        have hok := h.env env hmade
        have hfree := (hok.counted (hok.handed hpos).1).2
        simp only [view, decide_eq_false_iff_not] at hfree
        exact hfree hf

/-- The strategy pool answers a release that no loop waits for. -/
theorem inv_answered (h : p.Inv) (hi : p.tasks[i]? = some t) (ht : t.pends env = true)
    (honly : ∀ e, e ≠ env → t.pends e = false) (hh : ∀ e, t.hands e = false) {t' : Task}
    (hs : ∀ q : Pool, q.Startable t') (ha : t'.isAcquire = t.isAcquire)
    (hp' : ∀ e, t'.pends e = false) (hh' : ∀ e, t'.hands e = false) (hm : env.isMade = true)
    (ok : Bool) : ((if ok then p.drop env else p).setTask i t').Inv := by
  have hok := h.env env hm
  have hpos : 0 < p.pending env := Lib.countP_pos_of_getElem? hi ht
  have hone : p.pending env = 1 := by
    have := hok.once
    simp only [view] at this
    omega
  cases ok with
  | false =>
      refine ⟨h.base.setTask hi (hs _) ha, fun e he => ?_, h.fine⟩
      simp only [Bool.false_eq_true, if_false]
      rw [view_setTask hi, hp' e, hh e, hh' e]
      by_cases hee : e = env
      · subst hee
        rw [ht, hone]
        exact hok.refuse hone
      · rw [honly e hee]
        exact h.env e he
  | true =>
      have hi' : (p.drop env).tasks[i]? = some t := hi
      refine ⟨(h.base.drop hm).setTask hi' (hs _) ha, fun e he => ?_, ?_, h.fine⟩
      · simp only [if_true]
        rw [view_setTask hi', hp' e, hh e, hh' e, view_drop]
        by_cases hee : e = env
        · subst hee
          have hpend : (p.drop e).pending e = 1 := hone
          have hhand : (p.drop e).handing e = p.handing e := rfl
          rw [ht, hpend, hhand, if_pos rfl]
          exact hok.free hone
        · rw [honly e hee, if_neg hee]
          exact h.env e he
      · have hfree := (hok.counted (hok.pendingOwned (by simp only [view]; omega))).2
        simp only [view, decide_eq_false_iff_not] at hfree
        exact hfree

/-- The loop does not look at the tasks. -/
theorem sweepFrom_setTask (envs : List Env) (i : Nat) (t : Task) : ∀ p : Pool,
    (p.setTask i t).sweepFrom envs = ((p.sweepFrom envs).1.setTask i t, (p.sweepFrom envs).2) := by
  induction envs with
  | nil =>
      intro p
      rfl
  | cons env rest ih =>
      intro p
      have hbegin : ((p.setTask i t).setReferences env 1).beginRelease env true =
          (((p.setReferences env 1).beginRelease env true).1.setTask i t,
            ((p.setReferences env 1).beginRelease env true).2) := by
        have ho : ((p.setTask i t).setReferences env 1).ownerOf env =
            (p.setReferences env 1).ownerOf env := rfl
        have hr : ((p.setTask i t).setReferences env 1).references env =
            (p.setReferences env 1).references env := rfl
        unfold beginRelease
        rw [ho, hr]
        cases (p.setReferences env 1).ownerOf env with
        | none => rfl
        | some strategy =>
            simp only
            split <;> rfl
      simp only [sweepFrom, hbegin]
      cases hb : ((p.setReferences env 1).beginRelease env true).2 with
      | true => simp
      | false => simp [ih]

theorem sweepOn_setTask (p : Pool) (i : Nat) (envs : List Env) (t : Task) :
    (p.setTask i t).sweepOn i envs = p.sweepOn i envs := by
  simp only [sweepOn, sweepFrom_setTask]
  simp [setTask]

/-- The loop of the final release over the environments that may still be owned. -/
theorem inv_sweepOn (h : p.Inv) (hs : .swept ∈ p.log) (hi : p.tasks[i]? = some t)
    (ha : t.isAcquire = false) (hp : ∀ e, t.pends e = false) (hh : ∀ e, t.hands e = false)
    {envs : List Env} (hall : ∀ owner ∈ p.owners, owner.1 ∈ envs)
    (hnext : ∀ next, (p.sweepFrom envs).2 = some next → p.pending next.1 = 0) :
    (p.sweepOn i envs).Inv := by
  have howned : ∀ owner ∈ p.owners, p.owns owner.1 = true :=
    fun owner hmem => owns_iff.mpr ⟨owner, hmem, rfl⟩
  rcases sweepFrom_cases envs p with ⟨r, hr, hrefs, hnone⟩ |
      ⟨r, e, rest, strategy, hr, hown, hone, hrefs, hrest⟩
  · simp only [sweepOn, hr]
    have hempty : p.owners = [] := by
      cases hos : p.owners with
      | nil => rfl
      | cons owner owners =>
          have hmem : owner ∈ p.owners := by rw [hos]; exact List.mem_cons_self
          have hnot := hnone owner.1 (hall owner hmem)
          rw [howned owner hmem] at hnot
          cases hnot
    have hbase : Base { p with references := r } :=
      ⟨h.base.made, h.base.freedMade, h.base.obtainedMade, h.base.inflight, h.base.quiet,
        h.base.closedLog, h.base.waiting, h.base.sweeping, h.base.pools, h.base.pendsMade⟩
    have hi' : ({ p with references := r } : Pool).tasks[i]? = some t := hi
    refine ⟨hbase.setTask hi' ⟨hs, hempty⟩ ha.symm, fun x hx => ?_, h.fine⟩
    have hnot : p.owns x = false := by
      rw [← Bool.not_eq_true, owns_iff, hempty]
      simp
    have hview : ({ p with references := r } : Pool).view x = p.view x := by
      have hnot' : ({ p with references := r } : Pool).owns x = false := hnot
      simp only [view, hnot, hnot']
      rfl
    rw [view_setTask hi', hp x, hh x, hview]
    exact h.env x hx
  · have howns : p.owns e = true := by simp [owns, hown]
    have hmade := made_iff h.base howns
    have hpend := hnext (e, rest) (by rw [hr])
    have hhand := h.base.handing_eq_zero hs e
    simp only [sweepOn, hr]
    have hbase : Base { p with references := r, log := .passed e strategy true :: p.log } := by
      have hrefs' : Base { p with references := r } :=
        ⟨h.base.made, h.base.freedMade, h.base.obtainedMade, h.base.inflight, h.base.quiet,
          h.base.closedLog, h.base.waiting, h.base.sweeping, h.base.pools, h.base.pendsMade⟩
      exact hrefs'.note (x := .passed e strategy true) trivial
    have hi' : ({ p with references := r, log := .passed e strategy true :: p.log } :
      Pool).tasks[i]? =
        some t := hi
    refine ⟨hbase.setTask hi' ⟨hmade, List.mem_cons_of_mem _ hs, fun owner ho => ?_⟩ ha.symm,
      fun x hx => ?_, ?_, h.fine⟩
    · exact hrest owner.1 (hall owner ho) (howned owner ho)
    · have hview : ({ p with references := r, log := .passed e strategy true :: p.log } :
        Pool).view x =
          (({ p with references := r } : Pool).view x).note x (.passed e strategy true) :=
        view_note { p with references := r } _ x
      have hown' : ({ p with references := r } : Pool).owns x = p.owns x := rfl
      rw [view_setTask hi', hp x, hh x, hview]
      by_cases hxe : e = x
      · subst hxe
        have hyes : (Task.sweeping e rest).pends e = true := by simp [Task.pends]
        have hno : (Task.sweeping e rest).hands e = false := rfl
        rw [hyes, hno]
        have hforce := (h.env e hx).force howns hhand
        have hp0 : ({ p with references := r, log := .passed e strategy true :: p.log } :
          Pool).pending e =
            0 := hpend
        rw [hp0]
        have hview' : ({ p with references := r } : Pool).view e =
          { p.view e with references := 1 } := by
          simp only [view, hown', howns, if_true, hone]
          rfl
        rw [hview']
        simp only [View.note, true_and, if_true]
        exact hforce
      · have hno : (Task.sweeping e rest).pends x = false := by simp [Task.pends, hxe]
        have hno' : (Task.sweeping e rest).hands x = false := rfl
        rw [hno, hno']
        have hview' : ({ p with references := r } : Pool).view x = p.view x := by
          simp only [view, hown']
          cases ho : p.owns x with
          | false => rfl
          | true =>
              rw [hrefs x ho (fun heq => hxe heq.symm)]
              rfl
        rw [hview']
        simp only [View.note, hxe, false_and, if_false]
        exact h.env x hx
    · have hok := h.env e hmade
      have hfree := (hok.counted howns).2
      simp only [view, decide_eq_false_iff_not] at hfree
      exact ⟨hmade, (h.base.made _ (ownerOf_mem hown)).2, hfree, .inl rfl⟩

/-- The strategy pool answers an acquisition with an environment it lends. -/
theorem inv_finishAcquire (h : p.Inv) {base : Env} {strategy : String}
    (hi : p.tasks[i]? = some (.acquiring base strategy)) (hl : p.Lends base env) :
    (p.finishAcquire i base strategy env).Inv := by
  have hswept := h.base.not_swept hi rfl
  have hpends : ∀ e, (Task.acquiring base strategy).pends e = false := fun _ => rfl
  have hhands : ∀ e, (Task.acquiring base strategy).hands e = false := fun _ => rfl
  unfold finishAcquire
  by_cases htrack : env ≠ base ∨ p.owns env = true
  · -- the environment is entered, or counted once more
    have hmade : env.isMade = true := by
      rcases htrack with hne | ho
      · rcases hl.1 with heq | hm
        · exact absurd heq hne
        · exact hm
      · exact made_iff h.base ho
    obtain ⟨_, hfreed, hpend⟩ := hl.2 hmade
    have hok := h.env env hmade
    have hfree : (p.view env).freed = false := by simp [view, hfreed]
    have hle : (p.view env).references ≤ p.references env := by
      simp only [view]
      split <;> omega
    rw [if_pos htrack]
    simp only
    have henter := h.base.enter hmade hswept strategy
    have hrefs : (p.enter env strategy).references = p.references := by
      unfold enter
      split <;> rfl
    have htasks : (p.enter env strategy).tasks = p.tasks := by
      unfold enter
      split <;> rfl
    have hclosed : (p.enter env strategy).closed = p.closed := by
      unfold enter
      split <;> rfl
    have howns : (p.enter env strategy).owns env = true := (owns_enter strategy).mpr (.inr rfl)
    have hfine : Fine (p.enter env strategy).log := by
      unfold enter
      split
      · exact h.fine
      · exact ⟨trivial, h.fine⟩
    have hview := view_enter h.base env strategy
    simp only [hrefs]
    generalize p.enter env strategy = q at *
    have hi' : q.tasks[i]? = some (.acquiring base strategy) := by rw [htasks]; exact hi
    have hcount : ∀ n e, (q.setReferences env n).view e =
        if e = env then { p.view e with owned := true, references := n, obtained := true }
        else p.view e := by
      intro n e
      rw [view_setReferences, hview]
      by_cases he : e = env
      · subst he
        rw [if_pos ⟨rfl, howns⟩, if_pos rfl, if_pos rfl]
      · rw [if_neg (fun hc => he hc.1), if_neg he, if_neg he]
    have hsame : ∀ n e, (q.setReferences env n).pending e = p.pending e ∧
        (q.setReferences env n).handing e = p.handing e := by
      intro n e
      exact ⟨by simp only [pending, setReferences, htasks],
        by simp only [handing, setReferences, htasks]⟩
    have hobtained : ∃ s, .obtained env s ∈ q.log := by
      obtain ⟨owner, hmem, heq⟩ := owns_iff.mp howns
      exact ⟨owner.2, heq ▸ (henter.made owner hmem).2⟩
    by_cases hc : p.closed = true
    · have hc' : (q.setReferences env (p.references env + 1)).closed = true := hclosed.trans hc
      simp only [hc', if_true]
      obtain ⟨s, hs⟩ : ∃ s, q.ownerOf env = some s := Option.isSome_iff_exists.mp howns
      have hs' : (q.setReferences env (p.references env + 1)).ownerOf env = some s := hs
      have hr' : (q.setReferences env (p.references env + 1)).references env =
        p.references env + 1 :=
        if_pos rfl
      by_cases hmany : 1 < p.references env + 1
      · have hbegin : (q.setReferences env (p.references env + 1)).beginRelease env false =
            (q.setReferences env (p.references env), false) := by
          simp only [beginRelease, hs', hr', if_pos hmany]
          simp only [setReferences, Prod.mk.injEq, and_true]
          congr 1
          funext x
          by_cases hx : x = env <;> simp [hx]
        have hpos : 1 ≤ p.references env := by omega
        rw [hbegin]
        simp only [Bool.false_eq_true, if_false]
        have hi'' : (q.setReferences env (p.references env)).tasks[i]? =
            some (.acquiring base strategy) := hi'
        refine ⟨(henter.setReferences env _).setTask hi'' trivial rfl, fun e he => ?_, hfine⟩
        rw [view_setTask hi'', hpends, hhands, hcount, (hsame _ e).1, (hsame _ e).2]
        by_cases hee : e = env
        · subst hee
          rw [if_pos rfl]
          exact hok.hold hpos hle hpend hfree
        · rw [if_neg hee]
          exact h.env e he
      · have hbegin : (q.setReferences env (p.references env + 1)).beginRelease env false =
            ((q.setReferences env (p.references env + 1)).note (.passed env s false), true) := by
          simp only [beginRelease, hs', hr', if_neg hmany]
        have hnot : (p.view env).owned = false := by
          cases ho : (p.view env).owned with
          | false => rfl
          | true =>
              have := (hok.counted ho).1
              omega
        obtain ⟨hzero, hpass⟩ := hok.passNew hnot hfree (n := p.references env + 1) (by omega)
        rw [hbegin]
        simp only [if_true]
        have hi'' : ((q.setReferences env (p.references env + 1)).note
          (.passed env s false)).tasks[i]? =
            some (.acquiring base strategy) := hi'
        refine ⟨((henter.setReferences env _).note (x := .passed env s false) trivial).setTask hi''
          hmade rfl, fun e he => ?_, ?_, hfine⟩
        · have hview' : ((q.setReferences env (p.references env + 1)).note
            (.passed env s false)).view e =
              (q.setReferences env (p.references env + 1)).view e := by
            rw [view_note]
            simp [View.note]
          have hp' : ((q.setReferences env (p.references env + 1)).note
            (.passed env s false)).pending e =
              p.pending e := (hsame (p.references env + 1) e).1
          have hh' : ((q.setReferences env (p.references env + 1)).note
            (.passed env s false)).handing e =
              p.handing e := (hsame (p.references env + 1) e).2
          rw [view_setTask hi'', hpends, hhands, hview', hcount, hp', hh']
          by_cases hee : e = env
          · subst hee
            have hyes : (Task.abandoning e).pends e = true := by simp [Task.pends]
            rw [if_pos rfl, hyes, hpend]
            exact hpass
          · have hno : (Task.abandoning env).pends e = false := by
              simp [Task.pends, Ne.symm hee]
            rw [if_neg hee, hno]
            exact h.env e he
        · have hv := hcount (p.references env + 1) env
          rw [if_pos rfl] at hv
          have hgranted : (q.setReferences env (p.references env + 1)).log.count
            (.granted env) = 0 :=
            (congrArg View.granted hv).trans hzero
          have hfreed' : decide (.freed env ∈ (q.setReferences env (p.references env + 1)).log) =
            false :=
            (congrArg View.freed hv).trans hfree
          refine ⟨hmade, ?_, by simpa using hfreed', .inr (by omega)⟩
          exact (henter.made _ (ownerOf_mem hs)).2
    · have hc' : ¬ (q.setReferences env (p.references env + 1)).closed = true := by
        show ¬ q.closed = true
        rw [hclosed]
        exact hc
      simp only [if_neg hc']
      have hi'' : ((q.setReferences env (p.references env + 1)).note (.granted env)).tasks[i]? =
          some (.acquiring base strategy) := hi'
      refine ⟨((henter.setReferences env _).note
        (x := .granted env) trivial).setTask hi'' trivial rfl,
        fun e he => ?_, ⟨fun hcl => ?_, fun _ => hobtained⟩, hfine⟩
      · have hp' : ((q.setReferences env (p.references env + 1)).note (.granted env)).pending e =
            p.pending e := (hsame (p.references env + 1) e).1
        have hh' : ((q.setReferences env (p.references env + 1)).note (.granted env)).handing e =
            p.handing e := (hsame (p.references env + 1) e).2
        rw [view_setTask hi'', hpends, hhands, view_note, hcount, hp', hh']
        by_cases hee : e = env
        · subst hee
          have hyes : (Task.leaving (some e)).hands e = true := by simp [Task.hands]
          rw [if_pos rfl, hyes]
          simp only [View.note, if_true]
          exact hok.grant (n := p.references e + 1) (by omega) hpend hfree
        · have hno : (Task.leaving (some env)).hands e = false := by
            simp [Task.hands, Ne.symm hee]
          have hne : ¬ env = e := fun heq => hee heq.symm
          rw [if_neg hee, hno]
          simp only [View.note, if_neg hne]
          exact h.env e he
      · have := henter.closedLog hcl
        rw [hclosed] at this
        exact hc this
  · -- the caller's own source comes back
    have heq : env = base := by
      by_contra hne
      exact htrack (.inl hne)
    have hnot : p.owns env = false := by
      rw [← Bool.not_eq_true]
      exact fun ho => htrack (.inr ho)
    have hcaller : env.isMade = false := by
      rw [← Bool.not_eq_true]
      intro hm
      have := (hl.2 hm).1 heq
      rw [hnot] at this
      cases this
    rw [if_neg htrack]
    simp only
    by_cases hc : p.closed = true
    · have ho : p.ownerOf env = none := by simpa [owns] using hnot
      simp only [hc, if_true, beginRelease, ho, Bool.false_eq_true, if_false]
      exact inv_setTask h hi trivial rfl (fun _ => ⟨rfl, rfl⟩) fun _ => ⟨rfl, rfl⟩
    · rw [if_neg hc]
      have hi' : (p.note (.granted env)).tasks[i]? = some (.acquiring base strategy) := hi
      refine ⟨(h.base.note (x := .granted env) trivial).setTask hi' trivial rfl, fun e he => ?_,
        ⟨fun hcl => hc (h.base.closedLog hcl), fun hm => ?_⟩, h.fine⟩
      · have hne : ¬ env = e := by
          rintro rfl
          rw [hcaller] at he
          cases he
        have hno : (Task.leaving (some env)).hands e = false := by simp [Task.hands, hne]
        rw [view_setTask hi', view_note, hpends, hhands, hno]
        simp only [View.note, if_neg hne]
        exact h.env e he
      · rw [hcaller] at hm
        cases hm

/-- A caller gives an environment back. -/
theorem inv_releaseEnv (h : p.Inv) (hs : p.Sound (.releaseEnv env)) :
    Inv (if ((p.note (.asked env)).beginRelease env false).2 then
        ((p.note (.asked env)).beginRelease env false).1.addTask (.releasing env)
      else ((p.note (.asked env)).beginRelease env false).1) := by
  have hbase := h.base.note (x := .asked env) trivial
  have hview : ∀ e, (p.note (.asked env)).view e =
      if env = e then { p.view e with asked := (p.view e).asked + 1 } else p.view e :=
    fun e => view_note p (.asked env) e
  have hfine : Fine (p.note (.asked env)).log := ⟨trivial, h.fine⟩
  cases ho : p.ownerOf env with
  | none =>
      have ho' : (p.note (.asked env)).ownerOf env = none := ho
      simp only [beginRelease, ho', Bool.false_eq_true, if_false]
      refine ⟨hbase, fun e he => ?_, hfine⟩
      rw [hview]
      by_cases hee : env = e
      · subst hee
        rw [if_pos rfl]
        exact (h.env env he).giveNothing (hs he).1 (by simp [view, owns, ho])
      · rw [if_neg hee]
        exact h.env e he
  | some strategy =>
      have ho' : (p.note (.asked env)).ownerOf env = some strategy := ho
      have howns : p.owns env = true := by simp [owns, ho]
      have hmade := made_iff h.base howns
      obtain ⟨hback, hfree⟩ := hs hmade
      obtain ⟨hpend, hforced⟩ := hfree howns
      have hok := h.env env hmade
      have hrefs : (p.view env).references = p.references env := by simp [view, howns]
      have hr' : (p.note (.asked env)).references env = p.references env := rfl
      by_cases hmany : 1 < p.references env
      · simp only [beginRelease, ho', hr', if_pos hmany, Bool.false_eq_true, if_false]
        refine ⟨hbase.setReferences env _, fun e he => ?_, hfine⟩
        have hown' : (p.note (.asked env)).owns e = p.owns e := rfl
        rw [view_setReferences, hview, hown']
        by_cases hee : env = e
        · subst hee
          rw [if_pos ⟨rfl, howns⟩, if_pos rfl]
          have := hok.giveBack hback hpend (by omega)
          rw [hrefs] at this
          exact this
        · rw [if_neg (fun hc => hee hc.1.symm), if_neg hee]
          exact h.env e he
      · simp only [beginRelease, ho', hr', if_neg hmany, if_true]
        obtain ⟨hle, hlast⟩ := hok.giveLast hback hpend howns (by omega) hforced
        have hfreed := (hok.counted howns).2
        refine ⟨(hbase.note (x := .passed env strategy false) trivial).addTask hmade rfl,
          fun e he => ?_, ?_, hfine⟩
        · have hview' : ((p.note (.asked env)).note (.passed env strategy false)).view e =
              (p.note (.asked env)).view e := by
            rw [view_note]
            simp [View.note]
          have hp' : ((p.note (.asked env)).note (.passed env strategy false)).pending e =
              p.pending e := rfl
          rw [view_addTask, hview', hview, hp']
          by_cases hee : env = e
          · subst hee
            have hyes : (Task.releasing env).pends env = true := by simp [Task.pends]
            rw [if_pos rfl, hyes, hpend]
            exact hlast
          · have hno : (Task.releasing env).pends e = false := by simp [Task.pends, hee]
            rw [if_neg hee, hno]
            exact h.env e he
        · have hnot : .freed env ∉ p.log := by simpa [view] using hfreed
          refine ⟨hmade, List.mem_cons_of_mem _ (h.base.made _ (ownerOf_mem ho)).2, ?_, .inr ?_⟩
          · simp [note, hnot]
          · simp only [note, List.count_cons_self]
            rw [List.count_cons_of_ne (by simp)]
            exact hle

/-- The strategy pools are released. -/
theorem inv_poolsReleased (h : p.Inv) (hi : p.tasks[i]? = some .closingPools) (ok : Bool) :
    Inv ((if ok then { p with owners := [] }.note .finished else p).setTask i .done) := by
  cases ok with
  | false => exact inv_setTask h hi trivial rfl (fun _ => ⟨rfl, rfl⟩) fun _ => ⟨rfl, rfl⟩
  | true =>
      have hempty := (h.base.pools (List.mem_of_getElem? hi)).2
      have hsame : ({ p with owners := [] } : Pool) = p := by
        cases p
        simp only at hempty
        rw [hempty]
      simp only [if_true, hsame]
      have hi' : (p.note .finished).tasks[i]? = some .closingPools := hi
      refine ⟨(h.base.note (x := .finished) trivial).setTask hi' trivial rfl, fun e he => ?_, ?_,
        h.fine⟩
      · rw [view_setTask hi', view_note]
        exact h.env e he
      · intro e strategy hm
        have hmade := h.base.obtainedMade e strategy hm
        have hobt : (p.view e).obtained = true :=
          List.any_eq_true.mpr ⟨_, hm, by simp [obtains]⟩
        rcases (h.env e hmade).tracked hobt with ho | hf
        · obtain ⟨owner, hmem, _⟩ := owns_iff.mp ho
          rw [hempty] at hmem
          cases hmem
        · simpa [view] using hf

/-- Only what a strategy pool made is ever released. -/
theorem pending_made (h : p.Inv) (hi : p.tasks[i]? = some t) (ht : t.pends env = true) :
    env.isMade = true :=
  h.base.pendsMade t (List.mem_of_getElem? hi) env ht

/-- **Every sound event** keeps the invariant. -/
theorem inv_step {event : Event} (h : p.Inv) (hs : p.Sound event)
    (hstep : p.step event = some p') : p'.Inv := by
  cases event with
  | acquire base strategy valid =>
      simp only [step] at hstep
      by_cases hc : p.closed = true
      · rw [if_pos hc] at hstep
        cases hstep
        exact h
      · rw [if_neg hc] at hstep
        cases hstep
        have hc' : p.closed = false := by simpa using hc
        cases valid with
        | true => exact inv_acquire h hc' trivial rfl (fun _ => rfl) fun _ => rfl
        | false => exact inv_acquire h hc' trivial rfl (fun _ => rfl) fun _ => rfl
  | acquired i result =>
      simp only [step] at hstep
      split at hstep
      case h_1 hi =>
        cases hstep
        exact inv_setTask h hi trivial rfl (fun _ => ⟨rfl, rfl⟩) fun _ => ⟨rfl, rfl⟩
      case h_2 base strategy env hi =>
        cases hstep
        exact inv_finishAcquire h hi (hs base strategy hi)
      case h_3 => cases hstep
  | answered i ok =>
      simp only [step] at hstep
      split at hstep
      case h_1 env hi =>
        cases hstep
        have hm : env.isMade = true := pending_made h hi (by simp [Task.pends])
        exact inv_answered h hi (by simp [Task.pends])
          (fun e he => by simp [Task.pends, Ne.symm he])
          (fun _ => rfl) (leaving_startable _) rfl (fun _ => rfl) (fun _ => rfl) hm ok
      case h_2 env hi =>
        cases hstep
        have hm : env.isMade = true := pending_made h hi (by simp [Task.pends])
        exact inv_answered h hi (by simp [Task.pends])
          (fun e he => by simp [Task.pends, Ne.symm he])
          (fun _ => rfl) done_startable rfl (fun _ => rfl) (fun _ => rfl) hm ok
      case h_3 env rest hi =>
        cases hstep
        have hm : env.isMade = true := pending_made h hi (by simp [Task.pends])
        have hdone : ((if ok then p.drop env else p).setTask i .done).Inv :=
          inv_answered h hi (by simp [Task.pends]) (fun e he => by simp [Task.pends, Ne.symm he])
            (fun _ => rfl) done_startable rfl (fun _ => rfl) (fun _ => rfl) hm ok
        cases ok with
        | false => exact hdone
        | true =>
            have hsw := h.base.sweeping env rest (List.mem_of_getElem? hi)
            have hi' : ((p.drop env).setTask i .done).tasks[i]? = some .done :=
              List.getElem?_set_self (List.getElem?_eq_some_iff.mp hi).1
            simp only [if_true] at hdone ⊢
            rw [← sweepOn_setTask (p.drop env) i rest .done]
            refine inv_sweepOn hdone (List.mem_cons_of_mem _ hsw.1) hi' rfl (fun _ => rfl)
              (fun _ => rfl) (fun owner ho => ?_) fun next hn => ?_
            · have hkept := List.mem_filter.mp ho
              rcases hsw.2 owner hkept.1 with heq | hmem
              · have hne := hkept.2
                simp [heq] at hne
              · exact hmem
            · rw [sweepFrom_setTask] at hn
              have hzero := hs env rest next hi hn
              have hi'' : (p.drop env).tasks[i]? = some (.sweeping env rest) := hi
              have hset := pending_setTask hi'' .done next.1
              have hsame : (p.drop env).pending next.1 = p.pending next.1 := rfl
              have hd : (Task.done.pends next.1).toNat = 0 := rfl
              omega
      case h_4 => cases hstep
  | left i =>
      simp only [step] at hstep
      split at hstep
      case h_1 result hi =>
        cases hstep
        exact inv_left h hi
      case h_2 => cases hstep
  | releaseEnv env =>
      simp only [step, Option.some.injEq] at hstep
      subst hstep
      exact inv_releaseEnv h hs
  | release =>
      simp only [step, Option.some.injEq] at hstep
      subst hstep
      exact inv_release h
  | sweep i =>
      simp only [step] at hstep
      by_cases hg : p.tasks[i]? = some .waiting ∧ p.inflight = 0
      · rw [if_pos hg] at hstep
        cases hstep
        have hclosed := h.base.waiting (List.mem_of_getElem? hg.1)
        have hnote : (p.note .swept).Inv :=
          ⟨h.base.note ⟨hclosed, hg.2⟩, fun e he => by rw [view_note]; exact h.env e he, trivial,
            h.fine⟩
        refine inv_sweepOn hnote List.mem_cons_self hg.1 rfl (fun _ => rfl) (fun _ => rfl)
          (fun owner ho => ?_) fun next hn => ?_
        · rw [List.mem_reverse, List.mem_map]
          exact ⟨owner, ho, rfl⟩
        · exact hs next hn
      · rw [if_neg hg] at hstep
        cases hstep
  | poolsReleased i ok =>
      simp only [step] at hstep
      by_cases hi : p.tasks[i]? = some .closingPools
      · rw [if_pos hi] at hstep
        cases hstep
        exact inv_poolsReleased h hi ok
      · rw [if_neg hi] at hstep
        cases hstep

/-! ## runs -/

/-- Every event of the run is sound in the state it happens in. -/
def SoundRun : Pool → List Event → Prop
  | _, [] => True
  | p, event :: events => p.Sound event ∧ ∀ p', p.step event = some p' → SoundRun p' events

theorem inv_run : ∀ (events : List Event) (p : Pool), p.Inv → SoundRun p events →
    p.run events = some p' → p'.Inv := by
  intro events
  induction events with
  | nil =>
      intro p h _ hrun
      cases hrun
      exact h
  | cons event events ih =>
      intro p h hsound hrun
      simp only [run, Option.bind_eq_some_iff] at hrun
      obtain ⟨next, hstep, hrest⟩ := hrun
      exact ih next (inv_step h hsound.1 hstep) (hsound.2 next hstep) hrest

theorem inv_init : Inv {} := by
  refine ⟨⟨?_, ?_, ?_, rfl, ?_, ?_, ?_, ?_, ?_, ?_⟩, fun e he => ?_, trivial⟩
  · intro owner ho
    cases ho
  · intro e he
    cases he
  · intro e strategy he
    cases he
  · intro hs
    cases hs
  · intro hc
    cases hc
  · intro hw
    cases hw
  · intro e rest hm
    cases hm
  · intro hm
    cases hm
  · intro x hx
    cases hx
  · constructor <;> simp [view, owns, ownerOf, pending, handing]

/-- **Pooled environments are released exactly when unused.**  In every run of sound
events from an empty pool: what is passed to a strategy pool was made and entered by
it, has not been released before, and — unless the final release passes it — has been
given back as often as it was acquired; none is released twice or handed over after its
release; no acquisition succeeds once the pool is closing, and when the final release
has finished, everything that was entered has been released. -/
theorem released_when_unused (events : List Event) (hsound : SoundRun {} events)
    (hrun : Pool.run {} events = some p) : Fine p.log :=
  (inv_run events {} inv_init hsound hrun).fine

/-- One acquisition, handed over and given back. -/
def lifetime : List Event :=
  [.acquire (.caller 0) "worktree" true, .acquired 0 (some (.made 1)), .left 0,
    .releaseEnv (.made 1)]

/-- While its release is under way, a shared acquisition takes it as its source. -/
def overlap : List Event :=
  lifetime ++ [.acquire (.made 1) "shared" true, .acquired 2 (some (.made 1)), .answered 1 true,
    .left 2]

/-- Whether an event is sound. -/
def soundAt (p : Pool) : Event → Bool
  | .acquired i (some env) =>
      match p.tasks[i]? with
      | some (.acquiring base _) => (env = base || env.isMade) && (!env.isMade ||
          (env ≠ base || p.owns env) && decide (.freed env ∉ p.log) && p.pending env = 0)
      | _ => true
  | .releaseEnv env => !env.isMade ||
      decide (p.log.count (.asked env) < p.log.count (.returned env)) &&
        (!p.owns env || p.pending env = 0 && !p.log.any (forces env))
  | .sweep _ =>
      ((p.note .swept).sweepFrom (p.owners.map Prod.fst).reverse).2.all (p.pending ·.1 = 0)
  | .answered i true =>
      match p.tasks[i]? with
      | some (.sweeping env rest) => ((p.drop env).sweepFrom rest).2.all (p.pending ·.1 = 0)
      | _ => true
  | _ => true

theorem sound_of_soundAt {event : Event} (h : p.soundAt event = true) : p.Sound event := by
  have hnext : ∀ next : Option (Env × List Env), next.all (p.pending ·.1 = 0) = true →
      ∀ found, next = some found → p.pending found.1 = 0 := by
    intro next hall found hfound
    simpa [hfound] using hall
  cases event with
  | acquired i result =>
      cases result with
      | none => trivial
      | some env =>
          intro base strategy htask
          simp only [soundAt, htask, Bool.and_eq_true, Bool.or_eq_true, Bool.not_eq_true',
            decide_eq_true_eq] at h
          refine ⟨h.1, fun hmade => ?_⟩
          obtain hcaller | ⟨⟨hsource, hfreed⟩, hpending⟩ := h.2
          · rw [hmade] at hcaller
            contradiction
          · exact ⟨fun heq => hsource.resolve_left (absurd heq), hfreed, hpending⟩
  | releaseEnv env =>
      intro hmade
      simp only [soundAt, hmade, Bool.not_true, Bool.false_or, Bool.and_eq_true, Bool.or_eq_true,
        Bool.not_eq_true', decide_eq_true_eq] at h
      refine ⟨h.1, fun howned => ?_⟩
      obtain hfree | hquiet := h.2
      · rw [howned] at hfree
        contradiction
      · exact hquiet
  | sweep i => exact hnext _ h
  | answered i ok =>
      cases ok with
      | false => trivial
      | true =>
          intro env rest next htask
          rw [soundAt, htask] at h
          exact hnext _ h next
  | acquire | left | release | poolsReleased => trivial

/-- Whether each event of a run is sound where it happens. -/
def soundsAt (p : Pool) : List Event → Bool
  | [] => true
  | event :: events => p.soundAt event && (p.step event).all (·.soundsAt events)

theorem soundRun_of_soundsAt {events : List Event} (h : p.soundsAt events = true) :
    SoundRun p events := by
  induction events generalizing p with
  | nil => trivial
  | cons event events ih =>
      rw [soundsAt, Bool.and_eq_true] at h
      refine ⟨sound_of_soundAt h.1, fun p' hstep => ih ?_⟩
      rw [hstep] at h
      exact h.2

/-- An environment with a shared acquisition, given back twice, and one that the final release
finds in its hands. -/
def lifetimes : List Event :=
  [.acquire (.caller 0) "worktree" true, .acquired 0 (some (.made 1)), .left 0,
    .acquire (.made 1) "shared" true, .acquired 1 (some (.made 1)), .left 1,
    .releaseEnv (.made 1), .releaseEnv (.made 1), .answered 2 true,
    .acquire (.caller 0) "worktree" true, .acquired 3 (some (.made 2)), .left 3,
    .release, .sweep 4, .answered 4 true, .poolsReleased 4 true]

theorem released_when_unused_sample :
    ∃ p, Pool.run {} lifetimes = some p ∧ Fine p.log ∧ .freed (.made 1) ∈ p.log ∧
      .freed (.made 2) ∈ p.log ∧ .finished ∈ p.log := by
  have hends : (Pool.run {} lifetimes).all (fun p => .freed (.made 1) ∈ p.log ∧
      .freed (.made 2) ∈ p.log ∧ .finished ∈ p.log) = true := by decide +kernel
  obtain ⟨p, hrun⟩ := Option.isSome_iff_exists.mp
    (show (Pool.run {} lifetimes).isSome = true by decide +kernel)
  rw [hrun, Option.all_some, decide_eq_true_eq] at hends
  have hsound : SoundRun {} lifetimes := soundRun_of_soundsAt (by decide +kernel)
  exact ⟨p, hrun, released_when_unused _ hsound hrun, hends⟩

/-- The environment of the second acquisition is handed over after its release. -/
theorem overlap_returns_released :
    ¬ ∀ (events : List Event) (p : Pool), Pool.run {} events = some p → Fine p.log := by
  intro h
  have hlog : (Pool.run {} overlap).map Pool.log = some
      [.returned (.made 1), .freed (.made 1), .granted (.made 1),
        .passed (.made 1) "worktree" false, .asked (.made 1), .returned (.made 1),
        .granted (.made 1), .obtained (.made 1) "worktree"] := by
    decide +kernel
  obtain ⟨p, hrun, hp⟩ := Option.map_eq_some_iff.mp hlog
  have hfine := h overlap p hrun
  rw [hp] at hfine
  exact hfine.1 List.mem_cons_self

end Pool

end OpenCollab.EnvPool
