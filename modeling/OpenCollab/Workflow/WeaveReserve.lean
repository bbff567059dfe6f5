import Mathlib.Data.List.Dedup
import OpenCollab.Workflow.Weave

/-!
# OpenCollab.Workflow.WeaveReserve

What the groups of a weave leave: the repair reserve, and for each group to come
its minimum, whatever the repairs of earlier runs have used.

* `allocation_le`, `allocation_fair`: what one allocation leaves;
* `Progressed`: the invariant of a state between sessions;
* `progressed_runGroups`, `progressed_repair`: a run keeps it and grants within it.
-/

namespace OpenCollab.Weave

open Lib

/-! ## one allocation -/

/-- An allocation is at most what is left. -/
theorem allocation_le {r least granted : Nat} {weights : List ℚ}
    (h : allocation (some r) weights least = some granted) : granted ≤ r := by
  rw [allocation, Option.map_some, Option.some.injEq] at h
  subst h
  cases weights with
  | nil => exact Nat.zero_le r
  | cons first rest =>
      dsimp only
      split
      · exact Nat.zero_le r
      · exact Nat.le_trans (Nat.min_le_left _ _) (Nat.sub_le _ _)

/-- **A fair allocation**: where every group can have the minimum, the first one
gets it and leaves it to the others. -/
theorem allocation_fair {r least granted : Nat} {first : ℚ} {rest : List ℚ}
    (h : allocation (some r) (first :: rest) least = some granted)
    (hr : (rest.length + 1) * least ≤ r) :
    least ≤ granted ∧ granted + rest.length * least ≤ r := by
  rw [allocation, Option.map_some, Option.some.injEq] at h
  subst h
  have hsplit : (rest.length + 1) * least = rest.length * least + least := Nat.succ_mul _ _
  have hge : ¬ r < least := by omega
  have hfloor : least ≤ r / (rest.length + 1) := by
    rw [Nat.le_div_iff_mul_le (Nat.succ_pos _), Nat.mul_comm]
    exact hr
  dsimp only
  rw [if_neg hge, Nat.min_eq_left hfloor, Nat.mul_comm least]
  omega

/-! ## counts -/

/-- A count of one session. -/
def own (count : Row → Nat) (s : State) (session : String) : Nat :=
  ((s.sessions.get? session).map count).getD 0

/-- The count of all other sessions. -/
def others (count : Row → Nat) (s : State) (session : String) : Nat :=
  (s.sessions.erase session).sum fun _ row => count row

/-- A total is the count of one session and that of the others. -/
theorem total_split (count : Row → Nat) (s : State) (session : String) :
    s.total count = own count s session + others count s session := by
  unfold own others State.total
  cases hs : s.sessions.get? session with
  | none => rw [Dict.sum_erase_of_none hs, Option.map_none, Option.getD_none, Nat.zero_add]
  | some row => rw [Dict.sum_eq_add_erase hs, Option.map_some, Option.getD_some]

/-- **An observation** raises the counts of its session to what is reported. -/
theorem observe_spec {s s' : State} {phase : Label} {session : String} {tokens steps : Nat}
    (h : s.observe phase session tokens steps = some s') :
    (∀ row, s.sessions.get? session = some row → row.phase = phase) ∧
      s' = { s with
        sessions := s.sessions.set session
          ⟨phase, max (own Row.tokens s session) tokens, max (own Row.steps s session) steps⟩ } := by
  unfold State.observe at h
  dsimp only at h
  split at h
  · contradiction
  rename_i hphase
  rw [not_not] at hphase
  obtain rfl := Option.some.inj h
  constructor
  · intro row hrow
    rw [hrow] at hphase
    exact hphase
  · unfold own
    cases hs : s.sessions.get? session with
    | none => rfl
    | some row =>
        rw [hs] at hphase
        simp only [Option.getD_some] at hphase
        simp only [Option.getD_some, Option.map_some, hphase]

/-- One of the two counts a session reports. -/
structure Count where
  read : Row → Nat
  reported : Nat × Nat → Nat
  read_row : ∀ phase tokens steps, read ⟨phase, tokens, steps⟩ = reported (tokens, steps)
  reported_max : ∀ a b c d, reported (max a b, max c d) = max (reported (a, c)) (reported (b, d))
  reported_zero : reported (0, 0) = 0

namespace Count

def tokens : Count := ⟨Row.tokens, Prod.fst, fun _ _ _ => rfl, fun _ _ _ _ => rfl, rfl⟩

def steps : Count := ⟨Row.steps, Prod.snd, fun _ _ _ => rfl, fun _ _ _ _ => rfl, rfl⟩

variable (k : Count)

theorem reported_own (s : State) (session : String) :
    k.reported (own Row.tokens s session, own Row.steps s session) = own k.read s session := by
  unfold own
  cases s.sessions.get? session with
  | none => exact k.reported_zero
  | some row => exact (k.read_row row.phase row.tokens row.steps).symm

theorem own_observe {s s' : State} {phase : Label} {session : String} {tokens steps : Nat}
    (h : s.observe phase session tokens steps = some s') :
    own k.read s' session = max (own k.read s session) (k.reported (tokens, steps)) := by
  obtain ⟨-, rfl⟩ := observe_spec h
  rw [own, Dict.get?_set_self, Option.map_some, Option.getD_some, k.read_row, k.reported_max,
    k.reported_own]

theorem own_observe_of_ne {s s' : State} {phase : Label} {session other : String}
    {tokens steps : Nat} (h : s.observe phase session tokens steps = some s')
    (hne : other ≠ session) : own k.read s' other = own k.read s other := by
  obtain ⟨-, rfl⟩ := observe_spec h
  rw [own, Dict.get?_set_of_ne hne, own]

end Count

/-- An observation leaves the other sessions alone. -/
theorem others_observe (count : Row → Nat) {s s' : State} {phase : Label} {session : String}
    {tokens steps : Nat} (h : s.observe phase session tokens steps = some s') :
    others count s' session = others count s session := by
  obtain ⟨-, rfl⟩ := observe_spec h
  rw [others, Dict.sum_perm (Dict.erase_set _ _ _), others]

/-! ## a session's reports -/

/-- Rows appear only under the label of the session that reports. -/
structure Reported (phase : Label) (session : String) (s s' : State) : Prop where
  groups : s'.groups = s.groups
  budgetTotal : s'.budgetTotal = s.budgetTotal
  repairRounds : s'.repairRounds = s.repairRounds
  rows : ∀ id row, s'.sessions.get? id = some row →
    s.sessions.get? id = some row ∨ id = session ∧ row.phase = phase
  others : ∀ count, others count s' session = Weave.others count s session

/-- One report of a session. -/
theorem reported_observe {s s' : State} {phase : Label} {session : String} {tokens steps : Nat}
    (h : s.observe phase session tokens steps = some s') : Reported phase session s s' := by
  have hothers := fun count => others_observe count h
  obtain ⟨-, rfl⟩ := observe_spec h
  refine ⟨rfl, rfl, rfl, fun id row hrow => ?_, hothers⟩
  by_cases hid : id = session
  · subst hid
    rw [Dict.get?_set_self] at hrow
    exact .inr ⟨rfl, by rw [← Option.some.inj hrow]⟩
  · rw [Dict.get?_set_of_ne hid] at hrow
    exact .inl hrow

/-- **A session's reports** raise its counts to the largest one. -/
theorem observeAll_spec {phase : Label} {session : String} {reports : List (Nat × Nat)}
    {s s' : State} (h : observeAll phase session reports s = some s') :
    Reported phase session s s' ∧ ∀ (k : Count) (cap : Nat),
      (∀ r ∈ reports, k.reported r ≤ cap) →
        own k.read s' session ≤ max (own k.read s session) cap := by
  induction reports generalizing s with
  | nil =>
      obtain rfl := Option.some.inj h
      exact ⟨⟨rfl, rfl, rfl, fun _ _ hrow => .inl hrow, fun _ => rfl⟩,
        fun _ _ _ => Nat.le_max_left _ _⟩
  | cons report rest ih =>
      obtain ⟨tokens, steps⟩ := report
      obtain ⟨s₁, h₁, h⟩ := Option.bind_eq_some_iff.mp h
      have hr₁ := reported_observe h₁
      obtain ⟨hr, hcap⟩ := ih h
      refine ⟨⟨hr.groups.trans hr₁.groups, hr.budgetTotal.trans hr₁.budgetTotal,
        hr.repairRounds.trans hr₁.repairRounds, ?_, ?_⟩, ?_⟩
      · intro id row hrow
        obtain hrow | hnew := hr.rows id row hrow
        · exact hr₁.rows id row hrow
        · exact .inr hnew
      · exact fun k => (hr.others k).trans (hr₁.others k)
      · intro k cap hall
        have hlast := hcap k cap fun r hmem => hall r (List.mem_cons_of_mem _ hmem)
        have hhead := hall (tokens, steps) List.mem_cons_self
        rw [k.own_observe h₁] at hlast
        omega

/-- A session that reports belongs to the phase it reports for. -/
theorem phase_of_observeAll {phase : Label} {session : String} {reports : List (Nat × Nat)}
    {s s' : State} (h : observeAll phase session reports s = some s') (hne : reports ≠ []) :
    ∀ row, s.sessions.get? session = some row → row.phase = phase := by
  cases reports with
  | nil => exact absurd rfl hne
  | cons report rest =>
      obtain ⟨tokens, steps⟩ := report
      obtain ⟨s₁, h₁, -⟩ := Option.bind_eq_some_iff.mp h
      exact (observe_spec h₁).1

theorem own_mono {count count' : Row → Nat} (hle : ∀ row, count row ≤ count' row) (s : State)
    (session : String) : own count s session ≤ own count' s session := by
  unfold own
  cases s.sessions.get? session with
  | none => exact Nat.le_refl 0
  | some row => exact hle row

/-- **The session of a new phase** adds at most its cap to each count. -/
theorem total_observed {phase : Label} {session : String} {reports : List (Nat × Nat)}
    {s s' : State} (hnew : ∀ id row, s.sessions.get? id = some row → row.phase ≠ phase)
    (h : observeAll phase session reports s = some s') (k : Count) {count : Row → Nat}
    (hcount : ∀ row, count row ≤ k.read row) {cap : Nat}
    (hcap : ∀ r ∈ reports, k.reported r ≤ cap) : s'.total count ≤ s.total count + cap := by
  obtain ⟨hr, hown⟩ := observeAll_spec h
  have hle := hown k cap hcap
  have hmono := own_mono hcount s' session
  rw [total_split count s' session, total_split count s session, hr.others count]
  by_cases hne : reports = []
  · subst hne
    obtain rfl := Option.some.inj h
    omega
  · have hzero : own k.read s session = 0 := by
      unfold own
      cases hs : s.sessions.get? session with
      | none => rfl
      | some row => exact absurd (phase_of_observeAll h hne row hs) (hnew session row hs)
    omega

/-- A repair session adds nothing to the counts of the groups. -/
theorem groupTotal_repair {number : Nat} {session : String} {reports : List (Nat × Nat)}
    {s s' : State} (h : observeAll (.repair number) session reports s = some s')
    (count : Row → Nat) : s'.groupTotal count = s.groupTotal count := by
  by_cases hne : reports = []
  · subst hne
    obtain rfl := Option.some.inj h
    rfl
  · have hbefore := phase_of_observeAll h hne
    obtain ⟨hr, -⟩ := observeAll_spec h
    have hafter : ∀ row, s'.sessions.get? session = some row → row.phase = .repair number := by
      intro row hrow
      obtain hold | ⟨-, hphase⟩ := hr.rows session row hrow
      · exact hbefore row hold
      · exact hphase
    have hzero : ∀ t : State,
        (∀ row, t.sessions.get? session = some row → row.phase = .repair number) →
        own (fun row => if row.phase.isGroup then count row else 0) t session = 0 := by
      intro t hall
      unfold own
      cases ht : t.sessions.get? session with
      | none => rfl
      | some row =>
          rw [Option.map_some, Option.getD_some, hall row ht]
          rfl
    unfold State.groupTotal
    rw [total_split _ s' session, total_split _ s session, hr.others, hzero s' hafter,
      hzero s hbefore]

/-- All tokens are those of the groups and those of the repairs. -/
theorem tokens_split (s : State) : s.tokens = s.groupTotal Row.tokens + s.repairTokens := by
  unfold State.tokens State.groupTotal State.repairTokens State.total
  rw [← Dict.sum_add]
  refine Dict.sum_congr fun e _ => ?_
  dsimp only
  split <;> simp

/-! ## between sessions -/

/-- Of an allowance for `n` groups, `used` by the first `j`: it is not exceeded,
and where it covers the least of every group it still covers the rest. -/
structure Reserved (fair : Prop) (n j allowance least used : Nat) : Prop where
  within : used ≤ allowance
  rest : fair → n * least ≤ allowance → used + (n - j) * least ≤ allowance

/-- `tokens_left` covers the least of the groups that remain. -/
def Grant.Covered (c : Config) (n : Nat) (g : Grant) : Prop :=
  ∀ available ∈ g.available, (n + 1 - g.number) * c.minimumGroupTokens ≤ available

/-- The session reports at most what it was granted. -/
structure Grant.Capped (g : Grant) : Prop where
  tokens : ∀ cap ∈ g.hard, ∀ r ∈ g.turn.reports, r.1 ≤ cap
  steps : ∀ cap ∈ g.steps, ∀ r ∈ g.turn.reports, r.2 ≤ cap

def RepairGrant.Capped (g : RepairGrant) : Prop := ∀ cap ∈ g.hard, ∀ r ∈ g.turn.reports, r.1 ≤ cap

/-- **The state between sessions**, the first `j` of `n` groups having been attempted. -/
structure Progressed (c : Config) (fair : Prop) (n allowance total j : Nat) (s : State) : Prop where
  within : j ≤ n
  started : ∀ k, 1 ≤ k → (s.groups.get? k = none ↔ j < k)
  labels : ∀ id row, s.sessions.get? id = some row →
    (∃ k ≤ j, row.phase = .group k) ∨ ∃ r ≤ s.repairRounds.length, row.phase = .repair r
  tokens : Reserved fair n j allowance c.minimumGroupTokens (s.groupTotal Row.tokens)
  steps : ∀ limit ∈ c.maxSteps,
    Reserved True n j limit c.minimumGroupSteps (s.groupTotal Row.steps)
  spent : s.tokens ≤ total

/-- What a grant is promised to be. -/
structure Grant.Sound (c : Config) (fair : Prop) (n allowance : Nat) (g : Grant) : Prop where
  hard : ∃ cap ∈ g.hard, cap + g.tokensBefore ≤ allowance
  soft : ∃ soft ∈ g.soft, ∀ cap ∈ g.hard, soft ≤ cap
  steps : ∀ limit ∈ c.maxSteps, ∃ cap ∈ g.steps, cap + g.stepsBefore ≤ limit
  leastTokens : fair → n * c.minimumGroupTokens ≤ allowance →
    ∀ cap ∈ g.hard, c.minimumGroupTokens ≤ cap
  leastSteps : ∀ limit ∈ c.maxSteps, n * c.minimumGroupSteps ≤ limit →
    ∀ cap ∈ g.steps, c.minimumGroupSteps ≤ cap

/-- A repair is granted out of what is left of the total. -/
def RepairGrant.Within (total : Nat) (g : RepairGrant) : Prop :=
  ∃ cap ∈ g.hard, cap + g.tokensBefore ≤ total

variable {c : Config} {fair : Prop} {n allowance total j number : Nat} {s s' : State}

/-- What is left for a group, out of what is left for all sessions. -/
theorem left_spec (available : Option Nat) {used : Nat} (rest : Nat) (hused : used ≤ allowance) :
    ∃ r, minimum available (some (allowance - used)) = some r ∧ r + used ≤ allowance ∧
      (∀ a ∈ available, r ≤ a) ∧
      ((∀ a ∈ available, rest ≤ a) → used + rest ≤ allowance → rest ≤ r) := by
  cases available with
  | none =>
      refine ⟨allowance - used, rfl, ?_, nofun, fun _ hrest => ?_⟩ <;> omega
  | some a =>
      refine ⟨min a (allowance - used), rfl, ?_, fun a' ha' => ?_, fun ha hrest => ?_⟩
      · omega
      · obtain rfl := Option.some.inj ha'
        omega
      · have := ha a rfl
        omega

/-- No more is left than the total has. -/
theorem tokensLeft_le (live : Option Nat) (total : Nat) (s : State) :
    ∃ a, tokensLeft live (some total) s = some a ∧ a ≤ total - s.tokens := by
  cases live with
  | none => exact ⟨_, rfl, Nat.le_refl _⟩
  | some l => exact ⟨_, rfl, Nat.min_le_right _ _⟩

/-- What the rest of an allowance becomes when a group has used its grant. -/
theorem Reserved.next {fair : Prop} {least used granted : Nat} (hg : granted + used ≤ allowance)
    (hfair : fair → n * least ≤ allowance →
      granted + (n - (j + 1)) * least + used ≤ allowance) {used' : Nat}
    (hu : used' ≤ used + granted) : Reserved fair n (j + 1) allowance least used' := by
  refine ⟨by omega, fun hf hn => ?_⟩
  have := hfair hf hn
  omega

/-- A grant out of what is left. -/
theorem granted_spec {fair : Prop} {least used r granted : Nat} {first : ℚ} {rest : List ℚ}
    (hlt : j < n) (hlen : rest.length + 1 = n - j) (hr : Reserved fair n j allowance least used)
    (hleft : r + used ≤ allowance)
    (hcover : fair → used + (n - j) * least ≤ allowance → (n - j) * least ≤ r)
    (h : allocation (some r) (first :: rest) least = some granted) :
    granted + used ≤ allowance ∧ (fair → n * least ≤ allowance →
      least ≤ granted ∧ granted + (n - (j + 1)) * least + used ≤ allowance) := by
  have hle := allocation_le h
  refine ⟨by omega, fun hf hn => ?_⟩
  have hr' := hcover hf (hr.rest hf hn)
  rw [← hlen] at hr'
  obtain ⟨hleast, hrest⟩ := allocation_fair h hr'
  have hlen' : rest.length = n - (j + 1) := by omega
  rw [hlen'] at hrest
  exact ⟨hleast, by omega⟩

/-- The parts of a grant. -/
structure Granted (c : Config) (fair : Prop) (n allowance total j : Nat) (s : State) (g : Grant) :
    Prop where
  sound : g.Sound c fair n allowance
  tokens : ∃ cap ∈ g.hard, cap + s.groupTotal Row.tokens ≤ allowance ∧
    (fair → n * c.minimumGroupTokens ≤ allowance →
      cap + (n - (j + 1)) * c.minimumGroupTokens + s.groupTotal Row.tokens ≤ allowance) ∧
    cap + s.tokens ≤ total
  steps : ∀ limit ∈ c.maxSteps, ∃ cap ∈ g.steps, cap + s.groupTotal Row.steps ≤ limit ∧
    (True → n * c.minimumGroupSteps ≤ limit →
      cap + (n - (j + 1)) * c.minimumGroupSteps + s.groupTotal Row.steps ≤ limit)

/-- The soft cap is within the hard one. -/
theorem soft_le {weights : List ℚ} {turn : GroupTurn} {total : Option Nat} {cap : Nat}
    (hcap : (grant c total weights number turn s).hard = some cap) :
    ∃ soft ∈ (grant c total weights number turn s).soft, soft ≤ cap := by
  obtain ⟨allocated, hsoft⟩ : ∃ allocated, (grant c total weights number turn s).soft =
      softGrant c (grant c total weights number turn s).hard allocated := ⟨_, rfl⟩
  rw [hsoft, hcap]
  exact ⟨_, rfl, Nat.min_le_left _ _⟩

/-- **A grant is sound**, and leaves what it has to. -/
theorem granted {first : ℚ} {rest : List ℚ} {turn : GroupTurn}
    (hp : Progressed c fair n allowance total j s) (hlt : j < n) (hlen : rest.length + 1 = n - j)
    (hhard : c.hard (some total) = some allowance)
    (hcover : fair → (grant c (some total) (first :: rest) (j + 1) turn s).Covered c n) :
    Granted c fair n allowance total j s (grant c (some total) (first :: rest) (j + 1) turn s) := by
  obtain ⟨a, havailable, hatotal⟩ := tokensLeft_le turn.live total s
  obtain ⟨r, hr, hleft, hra, hcov⟩ := left_spec (some a) ((n - j) * c.minimumGroupTokens)
    hp.tokens.within
  have hcap : (grant c (some total) (first :: rest) (j + 1) turn s).hard =
      allocation (some r) (first :: rest) c.minimumGroupTokens := by
    rw [grant, hhard, havailable]
    exact congrArg (allocation · (first :: rest) c.minimumGroupTokens) hr
  obtain ⟨cap, hgrant⟩ : ∃ cap, allocation (some r) (first :: rest) c.minimumGroupTokens =
      some cap := ⟨_, rfl⟩
  rw [hgrant] at hcap
  have hlive : fair → s.groupTotal Row.tokens + (n - j) * c.minimumGroupTokens ≤ allowance →
      (n - j) * c.minimumGroupTokens ≤ r := by
    intro hf hrest
    refine hcov (fun a' ha' => ?_) hrest
    obtain rfl := Option.some.inj ha'
    have hc := hcover hf a havailable
    have hnum : (grant c (some total) (first :: rest) (j + 1) turn s).number = j + 1 := rfl
    have hn : n + 1 - (j + 1) = n - j := by omega
    rw [hnum, hn] at hc
    exact hc
  obtain ⟨hwithin, hfair⟩ := granted_spec hlt hlen hp.tokens hleft hlive hgrant
  have hspent : cap + s.tokens ≤ total := by
    have := allocation_le hgrant
    have := hra a rfl
    have := hp.spent
    omega
  have hstep : ∀ limit ∈ c.maxSteps,
      ∃ cap ∈ (grant c (some total) (first :: rest) (j + 1) turn s).steps,
        cap + s.groupTotal Row.steps ≤ limit ∧ (True → n * c.minimumGroupSteps ≤ limit →
          c.minimumGroupSteps ≤ cap ∧
            cap + (n - (j + 1)) * c.minimumGroupSteps + s.groupTotal Row.steps ≤ limit) := by
    intro limit hlim
    have hres := hp.steps limit hlim
    obtain ⟨cap, hgrant⟩ : ∃ cap, allocation (some (limit - s.groupTotal Row.steps)) (first :: rest)
        c.minimumGroupSteps = some cap := ⟨_, rfl⟩
    refine ⟨cap, ?_, granted_spec hlt hlen hres ?_ ?_ hgrant⟩
    · have hsome : c.maxSteps = some limit := hlim
      show (grant c (some total) (first :: rest) (j + 1) turn s).steps = some cap
      rw [grant, hsome]
      exact hgrant
    · have := hres.within
      omega
    · intro _ hrest
      omega
  constructor
  · constructor
    · exact ⟨cap, hcap, hwithin⟩
    · obtain ⟨soft, hsoft, hle⟩ := soft_le hcap
      refine ⟨soft, hsoft, fun cap' hcap' => ?_⟩
      obtain rfl := Option.some.inj (hcap.symm.trans hcap')
      exact hle
    · intro limit hlim
      obtain ⟨steps, hs, hw, -⟩ := hstep limit hlim
      exact ⟨steps, hs, hw⟩
    · intro hf hn cap' hcap'
      obtain rfl := Option.some.inj (hcap.symm.trans hcap')
      exact (hfair hf hn).1
    · intro limit hlim hn steps hs
      obtain ⟨steps', hs', -, hf⟩ := hstep limit hlim
      obtain rfl := Option.some.inj (hs'.symm.trans hs)
      exact (hf trivial hn).1
  · exact ⟨cap, hcap, hwithin, fun hf hn => (hfair hf hn).2, hspent⟩
  · intro limit hlim
    obtain ⟨steps, hs, hw, hf⟩ := hstep limit hlim
    exact ⟨steps, hs, hw, fun ht hn => (hf ht hn).2⟩

/-! ## runs -/

/-- What the log of an attempt may hold. -/
def Grant.Fits (c : Config) (fair : Prop) (n : Nat) (g : Grant) : Prop :=
  g.Capped ∧ (fair → g.Covered c n)

theorem Progressed.mark (hp : Progressed c fair n allowance total j s) (hn : 1 ≤ number)
    (hj : number ≤ j) (status : GroupStatus) :
    Progressed c fair n allowance total j (s.mark number status) := by
  refine ⟨hp.within, fun k hk => ?_, hp.labels, hp.tokens, hp.steps, hp.spent⟩
  by_cases hkn : k = number
  · subst hkn
    rw [State.mark, Dict.get?_set_self]
    simp only [reduceCtorEq, false_iff, Nat.not_lt]
    exact hj
  · rw [State.mark, Dict.get?_set_of_ne hkn]
    exact hp.started k hk

/-- The next group's label is new. -/
theorem Progressed.newGroup (hp : Progressed c fair n allowance total j s) :
    ∀ id row, s.sessions.get? id = some row → row.phase ≠ .group (j + 1) := by
  intro id row hrow heq
  obtain ⟨k, hk, hphase⟩ | ⟨r, -, hphase⟩ := hp.labels id row hrow
  · rw [hphase] at heq
    have := Label.group.inj heq
    omega
  · rw [hphase] at heq
    contradiction

theorem groupCount_le (count : Row → Nat) (row : Row) :
    (if row.phase.isGroup then count row else 0) ≤ count row := by
  split <;> omega

/-- A group's session has ended. -/
theorem Progressed.session {first : ℚ} {rest : List ℚ} {turn : GroupTurn}
    (hp : Progressed c fair n allowance total j s) (hlt : j < n)
    (hg : Granted c fair n allowance total j s
      (grant c (some total) (first :: rest) (j + 1) turn s))
    (hcap : (grant c (some total) (first :: rest) (j + 1) turn s).Capped)
    (h : observeAll (.group (j + 1)) turn.session turn.reports s = some s')
    (status : GroupStatus) :
    Progressed c fair n allowance total (j + 1) (s'.mark (j + 1) status) := by
  obtain ⟨hr, -⟩ := observeAll_spec h
  obtain ⟨cap, hmem, hle, hfair, hspent⟩ := hg.tokens
  constructor
  · exact hlt
  · intro k hk
    by_cases hkn : k = j + 1
    · subst hkn
      rw [State.mark, Dict.get?_set_self]
      simp
    · rw [State.mark, Dict.get?_set_of_ne hkn, hr.groups, hp.started k hk]
      omega
  · intro id row hrow
    obtain hold | ⟨-, hphase⟩ := hr.rows id row hrow
    · obtain ⟨k, hk, hphase⟩ | ⟨r, hle, hphase⟩ := hp.labels id row hold
      · exact .inl ⟨k, Nat.le_succ_of_le hk, hphase⟩
      · exact .inr ⟨r, hr.repairRounds ▸ hle, hphase⟩
    · exact .inl ⟨j + 1, Nat.le_refl _, hphase⟩
  · exact Reserved.next hle hfair
      (total_observed hp.newGroup h .tokens (groupCount_le _) (hcap.tokens cap hmem))
  · intro limit hlim
    obtain ⟨steps, hmem, hle, hfair⟩ := hg.steps limit hlim
    exact Reserved.next hle hfair
      (total_observed hp.newGroup h .steps (groupCount_le _) (hcap.steps steps hmem))
  · have hadded : s'.tokens ≤ s.tokens + cap :=
      total_observed hp.newGroup h .tokens (fun _ => Nat.le_refl _) (hcap.tokens cap hmem)
    exact hadded.trans (by omega)

/-- **One group**: its grant is sound, and the state after it is as promised. -/
theorem progressed_attempt {first : ℚ} {rest : List ℚ} {turn : GroupTurn}
    (hp : Progressed c fair n allowance total j s) (hn : 1 ≤ number) (hj : number ≤ j + 1)
    (hlen : number + rest.length = n) (hhard : c.hard (some total) = some allowance)
    (hfits : ∀ g ∈ (attempt c (some total) (first :: rest) number turn s).log, g.Fits c fair n) :
    (∃ i, j ≤ i ∧
      ((attempt c (some total) (first :: rest) number turn s).ending = .next → number ≤ i) ∧
      Progressed c fair n allowance total i
        (attempt c (some total) (first :: rest) number turn s).state) ∧
    ∀ g ∈ (attempt c (some total) (first :: rest) number turn s).log, g.Sound c fair n allowance := by
  unfold attempt at hfits ⊢
  cases hs : s.groups.get? number with
  | some status =>
      have hle' : number ≤ j := by
        by_contra hlt
        have hnone := (hp.started number hn).mpr (Nat.lt_of_not_le hlt)
        rw [hs] at hnone
        contradiction
      cases status with
      | checked => exact ⟨⟨j, Nat.le_refl j, fun _ => hle', hp⟩, nofun⟩
      | generated => exact ⟨⟨j, Nat.le_refl j, fun _ => hle', hp.mark hn hle' .checked⟩, nofun⟩
  | none =>
      obtain rfl : number = j + 1 := by
        have := (hp.started number hn).mp hs
        omega
      have hlt : j < n := by omega
      rw [hs] at hfits
      dsimp only at hfits ⊢
      have hgranted : (grant c (some total) (first :: rest) (j + 1) turn s).Fits c fair n →
          Granted c fair n allowance total j s
            (grant c (some total) (first :: rest) (j + 1) turn s) :=
        fun hf => granted hp hlt (by omega) hhard hf.2
      split at hfits
      · rename_i href
        rw [if_pos href]
        have hg := hgranted (hfits _ List.mem_cons_self)
        refine ⟨⟨j, Nat.le_refl j, nofun, hp⟩, fun g hmem => ?_⟩
        rw [List.mem_singleton.mp hmem]
        exact hg.sound
      · rename_i href
        rw [if_neg href]
        cases hobs : observeAll (.group (j + 1)) turn.session turn.reports s with
        | none =>
            rw [hobs] at hfits
            have hg := hgranted (hfits _ List.mem_cons_self)
            refine ⟨⟨j, Nat.le_refl j, nofun, hp⟩, fun g hmem => ?_⟩
            rw [List.mem_singleton.mp hmem]
            exact hg.sound
        | some s' =>
            rw [hobs] at hfits
            dsimp only at hfits ⊢
            have hfit : (grant c (some total) (first :: rest) (j + 1) turn s).Fits c fair n := by
              split at hfits <;> exact hfits _ List.mem_cons_self
            have hg := hgranted hfit
            have hsession := hp.session hlt hg hfit.1 hobs .generated
            split
            · refine ⟨⟨j + 1, Nat.le_succ j, nofun, hsession⟩, fun g hmem => ?_⟩
              rw [List.mem_singleton.mp hmem]
              exact hg.sound
            · refine ⟨⟨j + 1, Nat.le_succ j, fun _ => Nat.le_refl _,
                hsession.mark hn (Nat.le_refl _) .checked⟩, fun g hmem => ?_⟩
              rw [List.mem_singleton.mp hmem]
              exact hg.sound

/-- **The loop over the groups** keeps the state as promised, and every grant of it is sound. -/
theorem progressed_runGroups {env : Nat → GroupTurn} {weights : List ℚ}
    (hhard : c.hard (some total) = some allowance)
    (hp : Progressed c fair n allowance total j s) (hn : 1 ≤ number) (hj : number ≤ j + 1)
    (hlen : number + weights.length = n + 1)
    (hfits : ∀ g ∈ (runGroups c (some total) env number weights s).2.1, g.Fits c fair n) :
    (∃ i, Progressed c fair n allowance total i (runGroups c (some total) env number weights s).1) ∧
    ∀ g ∈ (runGroups c (some total) env number weights s).2.1, g.Sound c fair n allowance := by
  induction weights generalizing number j s with
  | nil => exact ⟨⟨j, hp⟩, nofun⟩
  | cons first rest ih =>
      have hlen' : number + rest.length = n := by
        rw [List.length_cons] at hlen
        omega
      unfold runGroups at hfits ⊢
      dsimp only at hfits ⊢
      cases hend : (attempt c (some total) (first :: rest) number (env number) s).ending with
      | next =>
          rw [hend] at hfits
          obtain ⟨⟨i, hji, hnum, hpi⟩, hsound⟩ := progressed_attempt hp hn hj hlen' hhard
            fun g hg => hfits g (List.mem_append_left _ hg)
          obtain ⟨hlast, hrest⟩ := ih hpi (Nat.le_succ_of_le hn) (Nat.succ_le_succ (hnum hend))
            (by omega) fun g hg => hfits g (List.mem_append_right _ hg)
          refine ⟨hlast, fun g hg => ?_⟩
          rw [List.mem_append] at hg
          exact hg.elim (hsound g) (hrest g)
      | broke =>
          rw [hend] at hfits
          obtain ⟨⟨i, -, -, hpi⟩, hsound⟩ := progressed_attempt hp hn hj hlen' hhard hfits
          exact ⟨⟨i, hpi⟩, hsound⟩
      | cut =>
          rw [hend] at hfits
          obtain ⟨⟨i, -, -, hpi⟩, hsound⟩ := progressed_attempt hp hn hj hlen' hhard hfits
          exact ⟨⟨i, hpi⟩, hsound⟩

/-! ## repair rounds -/

/-- A round is granted at most what is left. -/
theorem repairGrant_le {a : Nat} (turn : RepairTurn) (hleast : c.minimumGroupTokens ≤ a) :
    ∃ cap, (repairGrant c (some a) turn s).hard = some cap ∧ cap ≤ a := by
  have hshare : (a * c.repairBudgetFraction).floor.toNat ≤ a := by
    have hle : (a : ℚ) * c.repairBudgetFraction ≤ a := by
      have hmul := mul_le_mul_of_nonneg_left c.fraction_le_one (Nat.cast_nonneg' (α := ℚ) a)
      rwa [mul_one] at hmul
    rw [Int.toNat_le]
    exact_mod_cast (Rat.floor_le _).trans hle
  obtain ⟨allowance, hallow, hle⟩ : ∃ allowance,
      (repairGrant c (some a) turn s).hard = minimum c.repairBudget (some allowance) ∧
        allowance ≤ a := by
    refine ⟨_, rfl, ?_⟩
    split
    · exact Nat.le_refl a
    · exact Nat.max_le.mpr ⟨hleast, hshare⟩
  rw [hallow]
  cases c.repairBudget with
  | none => exact ⟨_, rfl, hle⟩
  | some budget => exact ⟨_, rfl, (Nat.min_le_right _ _).trans hle⟩

/-- More rounds may be there. -/
theorem Progressed.rounds (hp : Progressed c fair n allowance total j s)
    {rounds : List (Option Nat)} (hle : s.repairRounds.length ≤ rounds.length) :
    Progressed c fair n allowance total j { s with repairRounds := rounds } := by
  refine ⟨hp.within, hp.started, fun id row hrow => ?_, hp.tokens, hp.steps, hp.spent⟩
  obtain hgroup | ⟨r, hr, hphase⟩ := hp.labels id row hrow
  · exact .inl hgroup
  · exact .inr ⟨r, hr.trans hle, hphase⟩

/-- A repair session has ended. -/
theorem Progressed.repaired (hp : Progressed c fair n allowance total j s) (row : Option Nat)
    {session : String} {reports : List (Nat × Nat)}
    (h : observeAll (.repair (s.repairRounds.length + 1)) session reports
      { s with repairRounds := s.repairRounds ++ [row] } = some s')
    {cap : Nat} (hcap : ∀ r ∈ reports, r.1 ≤ cap) (hspent : cap + s.tokens ≤ total) :
    Progressed c fair n allowance total j s' ∧
      s'.repairRounds = s.repairRounds ++ [row] := by
  obtain ⟨hr, -⟩ := observeAll_spec h
  have hlen : s'.repairRounds.length = s.repairRounds.length + 1 := by
    rw [hr.repairRounds, List.length_append, List.length_singleton]
  have hnew : ∀ id row, s.sessions.get? id = some row →
      row.phase ≠ .repair (s.repairRounds.length + 1) := by
    intro id row hrow heq
    obtain ⟨k, -, hphase⟩ | ⟨r, hle, hphase⟩ := hp.labels id row hrow
    · rw [hphase] at heq
      contradiction
    · rw [hphase] at heq
      have := Label.repair.inj heq
      omega
  refine ⟨⟨hp.within, fun k hk => ?_, fun id row hrow => ?_, ?_, fun limit hlim => ?_, ?_⟩,
    hr.repairRounds⟩
  · rw [hr.groups]
    exact hp.started k hk
  · obtain hold | ⟨-, hphase⟩ := hr.rows id row hrow
    · obtain hgroup | ⟨r, hle, hphase⟩ := hp.labels id row hold
      · exact .inl hgroup
      · exact .inr ⟨r, by omega, hphase⟩
    · exact .inr ⟨_, Nat.le_of_eq hlen.symm, hphase⟩
  · rw [groupTotal_repair h]
    exact hp.tokens
  · rw [groupTotal_repair h]
    exact hp.steps limit hlim
  · have hadded : s'.tokens ≤ s.tokens + cap :=
      total_observed (s := { s with repairRounds := s.repairRounds ++ [row] }) hnew h .tokens
        (fun _ => Nat.le_refl _) hcap
    omega

/-- **The repair rounds** keep the state as promised, and are granted what is left. -/
theorem progressed_repairLoop {env : Nat → RepairTurn} {left : Nat} {report : Check}
    {stagnant : Nat} (hp : Progressed c fair n allowance total j s)
    (hcap : ∀ g ∈ (repairLoop c (some total) env left report stagnant s).2, g.Capped) :
    Progressed c fair n allowance total j
        (repairLoop c (some total) env left report stagnant s).1 ∧
      ∀ g ∈ (repairLoop c (some total) env left report stagnant s).2, g.Within total := by
  induction left generalizing report stagnant s with
  | zero => exact ⟨hp, nofun⟩
  | succ left ih =>
      obtain ⟨a, havailable, hatotal⟩ :=
        tokensLeft_le (env (s.repairRounds.length + 1)).live total s
      have hspent := hp.spent
      unfold repairLoop at hcap ⊢
      dsimp only at hcap ⊢
      rw [havailable] at hcap ⊢
      split
      · exact ⟨hp, nofun⟩
      · rename_i hgo
        rw [if_neg hgo] at hcap
        have hleast : c.minimumGroupTokens ≤ a := by
          simp only [Option.any_some, Bool.or_eq_true, decide_eq_true_eq, not_or] at hgo
          omega
        obtain ⟨cap, hhard, hcapa⟩ :=
          @repairGrant_le c s a (env (s.repairRounds.length + 1)) hleast
        generalize hg : repairGrant c (some a) (env (s.repairRounds.length + 1)) s = g at hcap hhard ⊢
        have hwithin : g.Within total := by
          refine ⟨cap, hhard, ?_⟩
          rw [← hg]
          change cap + s.tokens ≤ total
          omega
        have hnumber : g.number = s.repairRounds.length + 1 := by rw [← hg]; rfl
        have hturn : g.turn = env (s.repairRounds.length + 1) := by rw [← hg]; rfl
        rw [hnumber] at hcap ⊢
        have hsingle : ∀ g' ∈ [g], g'.Within total := fun g' hg' => by
          rw [List.mem_singleton.mp hg']
          exact hwithin
        have hlonger : ∀ row : Option Nat,
            s.repairRounds.length ≤ (s.repairRounds ++ [row]).length := fun row => by simp
        cases hobs : observeAll (.repair (s.repairRounds.length + 1))
            (env (s.repairRounds.length + 1)).session (env (s.repairRounds.length + 1)).reports
            { s with repairRounds := s.repairRounds ++ [none] } with
        | none => exact ⟨hp.rounds (hlonger none), hsingle⟩
        | some s' =>
            rw [hobs] at hcap
            dsimp only at hcap ⊢
            generalize (if (env (s.repairRounds.length + 1)).improved = true then 0
              else stagnant + 1) = next at hcap ⊢
            have hcapped : g.Capped := by
              split at hcap
              · exact hcap g (List.mem_singleton_self g)
              · split at hcap
                · exact hcap g (List.mem_singleton_self g)
                · exact hcap g List.mem_cons_self
            have hreports : ∀ r ∈ (env (s.repairRounds.length + 1)).reports, r.1 ≤ cap := by
              rw [← hturn]
              exact hcapped cap hhard
            obtain ⟨hp', hrounds⟩ := hp.repaired none hobs hreports (by omega)
            have hfinished : ∀ row : Option Nat, Progressed c fair n allowance total j
                { s' with repairRounds := s.repairRounds ++ [row] } := fun row =>
              hp'.rounds (by rw [hrounds]; simp)
            split
            · exact ⟨hp', hsingle⟩
            · rename_i hrun
              rw [if_neg hrun] at hcap
              split
              · exact ⟨hfinished _, hsingle⟩
              · rename_i hmore
                rw [if_neg hmore] at hcap
                obtain ⟨hlast, hrest⟩ := ih (hfinished _) fun g' hg' =>
                  hcap g' (List.mem_cons_of_mem _ hg')
                refine ⟨hlast, fun g' hg' => ?_⟩
                obtain rfl | hg' := List.mem_cons.mp hg'
                · exact hwithin
                · exact hrest g' hg'

theorem progressed_repair {env : Nat → RepairTurn} {report : Check}
    (hp : Progressed c fair n allowance total j s)
    (hcap : ∀ g ∈ (repair c (some total) report env s).2, g.Capped) :
    Progressed c fair n allowance total j (repair c (some total) report env s).1 ∧
      ∀ g ∈ (repair c (some total) report env s).2, g.Within total := by
  unfold repair at hcap ⊢
  dsimp only at hcap ⊢
  split
  · exact ⟨hp, nofun⟩
  · rename_i hgo
    rw [if_neg hgo] at hcap
    exact progressed_repairLoop hp hcap

/-! ## the total -/

theorem budgetTotal_attempt {weights : List ℚ} {turn : GroupTurn} {total : Option Nat} :
    (attempt c total weights number turn s).state.budgetTotal = s.budgetTotal := by
  unfold attempt
  split
  · rfl
  · rfl
  · dsimp only
    split
    · rfl
    cases hobs : observeAll (.group number) turn.session turn.reports s with
    | none => rfl
    | some s' =>
        have hb := (observeAll_spec hobs).1.budgetTotal
        dsimp only
        split <;> exact hb

theorem budgetTotal_runGroups {env : Nat → GroupTurn} {weights : List ℚ} {total : Option Nat} :
    (runGroups c total env number weights s).1.budgetTotal = s.budgetTotal := by
  induction weights generalizing number s with
  | nil => rfl
  | cons first rest ih =>
      unfold runGroups
      dsimp only
      split
      · exact ih.trans budgetTotal_attempt
      · exact budgetTotal_attempt
      · exact budgetTotal_attempt

theorem budgetTotal_repairLoop {env : Nat → RepairTurn} {total : Option Nat} {left : Nat}
    {report : Check} {stagnant : Nat} :
    (repairLoop c total env left report stagnant s).1.budgetTotal = s.budgetTotal := by
  induction left generalizing report stagnant s with
  | zero => rfl
  | succ left ih =>
      unfold repairLoop
      dsimp only
      split
      · rfl
      cases hobs : observeAll (.repair (repairGrant c
          (tokensLeft (env (s.repairRounds.length + 1)).live total s)
          (env (s.repairRounds.length + 1)) s).number) (env (s.repairRounds.length + 1)).session
          (env (s.repairRounds.length + 1)).reports
          { s with repairRounds := s.repairRounds ++ [none] } with
      | none => rfl
      | some s' =>
          have hb := (observeAll_spec hobs).1.budgetTotal
          dsimp only
          generalize (if (env (s.repairRounds.length + 1)).improved = true then 0
            else stagnant + 1) = next
          split
          · exact hb
          · split
            · exact hb
            · exact ih.trans hb

theorem budgetTotal_repair {env : Nat → RepairTurn} {total : Option Nat} {report : Check} :
    (repair c total report env s).1.budgetTotal = s.budgetTotal := by
  unfold repair
  dsimp only
  split
  · rfl
  · exact budgetTotal_repairLoop

/-- A run fixes the total at its start. -/
theorem budgetTotal_run {weights : List ℚ} {env : Environment} :
    (run c weights env s).1.budgetTotal = (withTotal c env.live s).budgetTotal := by
  unfold run
  dsimp only
  split
  · exact budgetTotal_repair.trans budgetTotal_runGroups
  · exact budgetTotal_runGroups

theorem minimum_idem (a b : Option Nat) : minimum a (minimum a b) = minimum a b := by
  cases a with
  | none => rfl
  | some a =>
      cases b with
      | none => exact congrArg some (Nat.min_self a)
      | some b =>
          refine congrArg some ?_
          rw [← Nat.min_assoc, Nat.min_self]

/-- The total is fixed by the first run. -/
theorem Lineage.fixed {weights : List ℚ} {log : List Start} (hl : Lineage c weights s log) :
    (s = {} ∧ log = []) ∨ ∃ t, s.budgetTotal = some t ∧ minimum c.budget t = t := by
  cases hl with
  | start => exact .inl ⟨rfl, rfl⟩
  | run env hs => exact .inr ⟨_, budgetTotal_run, minimum_idem _ _⟩

/-- `min(main_hard_budget, total - min(repair_reserve, total // 4))`. -/
def Config.mainAllowance (c : Config) (total : Nat) : Nat :=
  match c.mainHardBudget with
  | none => total - c.reserve (some total)
  | some budget => min budget (total - c.reserve (some total))

theorem Config.hard_eq (c : Config) (total : Nat) :
    c.hard (some total) = some (c.mainAllowance total) := by
  unfold Config.hard Config.mainAllowance
  cases c.mainHardBudget <;> rfl

/-- The main allowance leaves the reserve. -/
theorem Config.mainAllowance_le (c : Config) (total : Nat) :
    c.mainAllowance total + c.reserve (some total) ≤ total := by
  have hreserve : c.reserve (some total) ≤ total := by
    have hquarter : c.reserve (some total) ≤ total / 4 := Nat.min_le_right _ _
    omega
  unfold Config.mainAllowance
  split <;> omega

/-! ## runs and their continuations -/

namespace Start

/-- The session reports at most what it was granted. -/
def Capped : Start → Prop
  | group g => g.Capped
  | delivery _ => True
  | repair g => g.Capped

instance (g : Grant) : Decidable g.Capped :=
  decidable_of_iff ((∀ cap ∈ g.hard, ∀ r ∈ g.turn.reports, r.1 ≤ cap) ∧
    ∀ cap ∈ g.steps, ∀ r ∈ g.turn.reports, r.2 ≤ cap)
    ⟨fun h => ⟨h.1, h.2⟩, fun h => ⟨h.tokens, h.steps⟩⟩

instance : DecidablePred Capped
  | group g => inferInstanceAs (Decidable g.Capped)
  | delivery _ => inferInstanceAs (Decidable True)
  | repair g => inferInstanceAs (Decidable (∀ cap ∈ g.hard, ∀ r ∈ g.turn.reports, r.1 ≤ cap))

/-- A group starts where the groups that remain are covered. -/
def Covered (c : Config) (n : Nat) : Start → Prop
  | group g => g.Covered c n
  | delivery _ => True
  | repair _ => True

/-- What is promised of a start. -/
def Sound (c : Config) (fair : Prop) (n allowance total : Nat) : Start → Prop
  | group g => g.Sound c fair n allowance
  | delivery s => s.groupTotal Row.tokens ≤ allowance
  | repair g => g.Within total

end Start

/-- A run that comes to its repair. -/
theorem run_through {weights : List ℚ} {env : Environment} {log : List Grant}
    (hb : (withTotal c env.live s).budgetTotal = some (some total))
    (hgroups : runGroups c (some total) env.groups 1 weights (withTotal c env.live s) =
      (s', log, true)) :
    run c weights env s = ((repair c (some total) env.check env.rounds s').1,
      log.map .group ++ .delivery s' ::
        (repair c (some total) env.check env.rounds s').2.map .repair) := by
  simp only [run, hb, Option.getD_some, hgroups, if_true]

/-- A run that is over before. -/
theorem run_cut {weights : List ℚ} {env : Environment} {log : List Grant}
    (hb : (withTotal c env.live s).budgetTotal = some (some total))
    (hgroups : runGroups c (some total) env.groups 1 weights (withTotal c env.live s) =
      (s', log, false)) :
    run c weights env s = (s', log.map .group) := by
  simp only [run, hb, Option.getD_some, hgroups, Bool.false_eq_true, if_false]

/-- **A run** keeps the state as promised, and every start of it is sound. -/
theorem progressed_run {weights : List ℚ} {env : Environment}
    (hb : (withTotal c env.live s).budgetTotal = some (some total))
    (hp : Progressed c fair weights.length (c.mainAllowance total) total j
      (withTotal c env.live s))
    (hcap : ∀ e ∈ (run c weights env s).2, e.Capped)
    (hcov : fair → ∀ e ∈ (run c weights env s).2, e.Covered c weights.length) :
    (∃ i, Progressed c fair weights.length (c.mainAllowance total) total i
      (run c weights env s).1) ∧
    ∀ e ∈ (run c weights env s).2, e.Sound c fair weights.length (c.mainAllowance total) total := by
  have hmain := @progressed_runGroups c fair weights.length (c.mainAllowance total) total j 1
    (withTotal c env.live s) env.groups weights (c.hard_eq total) hp (Nat.le_refl 1)
    (Nat.succ_le_succ (Nat.zero_le j)) (Nat.add_comm 1 _)
  obtain ⟨⟨s', log, through⟩, hgroups⟩ :
    ∃ main, runGroups c (some total) env.groups 1 weights (withTotal c env.live s) = main := ⟨_, rfl⟩
  rw [hgroups] at hmain
  dsimp only at hmain
  cases through with
  | true =>
      rw [run_through hb hgroups] at hcap hcov ⊢
      obtain ⟨⟨i, hi⟩, hsound⟩ := hmain fun g hg =>
        ⟨hcap (.group g) (List.mem_append_left _ (List.mem_map_of_mem hg)),
          fun hf => hcov hf (.group g) (List.mem_append_left _ (List.mem_map_of_mem hg))⟩
      obtain ⟨hlast, hwithin⟩ := progressed_repair hi fun g hg =>
        hcap (.repair g) (List.mem_append_right _
          (List.mem_cons_of_mem _ (List.mem_map_of_mem hg)))
      refine ⟨⟨i, hlast⟩, fun e he => ?_⟩
      obtain he | he := List.mem_append.mp he
      · obtain ⟨g, hg, rfl⟩ := List.mem_map.mp he
        exact hsound g hg
      · obtain rfl | he := List.mem_cons.mp he
        · exact hi.tokens.within
        · obtain ⟨g, hg, rfl⟩ := List.mem_map.mp he
          exact hwithin g hg
  | false =>
      rw [run_cut hb hgroups] at hcap hcov ⊢
      obtain ⟨hlast, hsound⟩ := hmain fun g hg =>
        ⟨hcap (.group g) (List.mem_map_of_mem hg),
          fun hf => hcov hf (.group g) (List.mem_map_of_mem hg)⟩
      refine ⟨hlast, fun e he => ?_⟩
      obtain ⟨g, hg, rfl⟩ := List.mem_map.mp he
      exact hsound g hg

/-- Before the first run nothing has been used. -/
theorem Progressed.initial (c : Config) (fair : Prop) (n allowance total : Nat) :
    Progressed c fair n allowance total 0 {} := by
  refine ⟨Nat.zero_le _, fun k hk => ?_, nofun, ?_, fun limit _ => ?_, Nat.zero_le _⟩
  · simp only [Dict.get?_empty, true_iff]
    exact hk
  · exact ⟨Nat.zero_le _, fun _ hn => by simpa [State.groupTotal, State.total] using hn⟩
  · exact ⟨Nat.zero_le _, fun _ hn => by simpa [State.groupTotal, State.total] using hn⟩

/-- **Every run of a lineage** keeps the state as promised. -/
theorem progressed_lineage (fair : Prop) {weights : List ℚ} {log : List Start}
    (hl : Lineage c weights s log) (ht : s.budgetTotal = some (some total))
    (hcap : ∀ e ∈ log, e.Capped) (hcov : fair → ∀ e ∈ log, e.Covered c weights.length) :
    (∃ j, Progressed c fair weights.length (c.mainAllowance total) total j s) ∧
      ∀ e ∈ log, e.Sound c fair weights.length (c.mainAllowance total) total := by
  induction hl with
  | start => contradiction
  | @run s log env hs ih =>
      have hb : (withTotal c env.live s).budgetTotal = some (some total) :=
        budgetTotal_run.symm.trans ht
      have hstart : ∃ j, Progressed c fair weights.length (c.mainAllowance total) total j s ∧
          ∀ e ∈ log, e.Sound c fair weights.length (c.mainAllowance total) total := by
        obtain ⟨rfl, rfl⟩ | ⟨t, hst, hidem⟩ := hs.fixed
        · exact ⟨0, .initial c fair _ _ _, nofun⟩
        · have hsame : (withTotal c env.live s).budgetTotal = some (minimum c.budget t) := by
            rw [withTotal, hst]
          rw [hidem, ← hst] at hsame
          obtain ⟨⟨j, hj⟩, hsound⟩ := ih (hsame.symm.trans hb)
            (fun e he => hcap e (List.mem_append_left _ he))
            (fun hf e he => hcov hf e (List.mem_append_left _ he))
          exact ⟨j, hj, hsound⟩
      obtain ⟨j, hp, hsound⟩ := hstart
      have hp' : Progressed c fair weights.length (c.mainAllowance total) total j
          (withTotal c env.live s) :=
        ⟨hp.within, hp.started, hp.labels, hp.tokens, hp.steps, hp.spent⟩
      obtain ⟨hlast, hnew⟩ := progressed_run hb hp'
        (fun e he => hcap e (List.mem_append_right _ he))
        (fun hf e he => hcov hf e (List.mem_append_right _ he))
      refine ⟨hlast, fun e he => ?_⟩
      rw [List.mem_append] at he
      exact he.elim (hsound e) (hnew e)

/-! ## observations -/

/-- A call of `observe`. -/
structure Observation where
  phase : Label
  session : String
  tokens : Nat
  steps : Nat
deriving DecidableEq, Inhabited

/-- Calls of `observe`, in order. -/
def observeCalls : List Observation → State → Option State
  | [], s => some s
  | o :: rest, s => do
      let s ← s.observe o.phase o.session o.tokens o.steps
      observeCalls rest s

/-- The largest count reported for a session. -/
def largest (calls : List Observation) (session : String) : Nat :=
  calls.foldr (fun o most => if o.session = session then max o.tokens most else most) 0

/-- The sessions that report. -/
def reporters (calls : List Observation) : List String := (calls.map Observation.session).dedup

/-- The count of a session is the largest that was reported for it. -/
theorem own_observeCalls {calls : List Observation} (h : observeCalls calls s = some s')
    (session : String) :
    own Row.tokens s' session = max (own Row.tokens s session) (largest calls session) := by
  induction calls generalizing s with
  | nil =>
      obtain rfl := Option.some.inj h
      exact (Nat.max_zero _).symm
  | cons o rest ih =>
      obtain ⟨s₁, h₁, h⟩ := Option.bind_eq_some_iff.mp h
      rw [ih h]
      unfold largest
      rw [List.foldr_cons]
      by_cases hs : o.session = session
      · subst hs
        have hown : own Row.tokens s₁ o.session = max (own Row.tokens s o.session) o.tokens :=
          Count.tokens.own_observe h₁
        rw [if_pos rfl, hown, Nat.max_assoc]
      · have hown : own Row.tokens s₁ session = own Row.tokens s session :=
          Count.tokens.own_observe_of_ne h₁ (Ne.symm hs)
        rw [if_neg hs, hown]

/-- A session has a row when it has reported. -/
theorem keys_observeCalls {calls : List Observation} (h : observeCalls calls s = some s')
    (session : String) : (s'.sessions.get? session).isSome = true ↔
      (s.sessions.get? session).isSome = true ∨ session ∈ calls.map Observation.session := by
  induction calls generalizing s with
  | nil =>
      obtain rfl := Option.some.inj h
      simp
  | cons o rest ih =>
      obtain ⟨s₁, h₁, h⟩ := Option.bind_eq_some_iff.mp h
      obtain ⟨-, rfl⟩ := observe_spec h₁
      rw [ih h, List.map_cons, List.mem_cons]
      by_cases hs : session = o.session
      · subst hs
        simp [Dict.get?_set_self]
      · rw [Dict.get?_set_of_ne hs]
        simp [hs]

/-- **The tokens of a state** are the largest counts of its sessions, in whatever
order and however often they were reported. -/
theorem tokens_observeCalls {calls : List Observation} (h : observeCalls calls {} = some s) :
    s.tokens = ((reporters calls).map (largest calls)).sum := by
  have hkeys : (s.sessions.entries.map Prod.fst).Perm (reporters calls) := by
    refine (List.perm_ext_iff_of_nodup s.sessions.nodup (List.nodup_dedup _)).mpr fun session => ?_
    have hk := keys_observeCalls h session
    rw [Option.isSome_iff_ne_none, ne_eq, Dict.get?_eq_none, not_not] at hk
    rw [hk, List.mem_dedup]
    simp
  have hown : ∀ e ∈ s.sessions.entries, e.2.tokens = largest calls e.1 := by
    intro e he
    have hl := own_observeCalls h e.1
    rw [own, Dict.get?_eq_some.mpr he] at hl
    simpa [own] using hl
  have hentries : s.tokens = ((s.sessions.entries.map Prod.fst).map (largest calls)).sum := by
    rw [List.map_map]
    exact congrArg List.sum (List.map_congr_left hown)
  rw [hentries, (hkeys.map _).sum_eq]

/-! ## the budgets of a weave -/

/-- What is promised of a weave with `total` tokens that is at `s`, `log` being the starts of its
groups, repair phases and repair rounds. -/
structure Bounds (c : Config) (groups total : Nat) (s : State) (log : List Start) : Prop where
  hard : ∀ g, .group g ∈ log → ∃ cap ∈ g.hard, cap + g.tokensBefore ≤ c.mainAllowance total
  soft : ∀ g, .group g ∈ log → ∃ soft ∈ g.soft, ∀ cap ∈ g.hard, soft ≤ cap
  /-- The groups leave the reserve; before the first repair nothing else has been used. -/
  unspent : ∀ d, .delivery d ∈ log → d.tokens + c.reserve (some total) ≤ total + d.repairTokens
  /-- Where what is left covers the minimum of the groups to come. -/
  least : (∀ g, .group g ∈ log → g.Covered c groups) →
    groups * c.minimumGroupTokens ≤ c.mainAllowance total →
    ∀ g, .group g ∈ log → ∀ cap ∈ g.hard, c.minimumGroupTokens ≤ cap
  steps : ∀ limit ∈ c.maxSteps, ∀ g, .group g ∈ log → ∃ cap ∈ g.steps, cap + g.stepsBefore ≤ limit
  leastSteps : ∀ limit ∈ c.maxSteps, groups * c.minimumGroupSteps ≤ limit →
    ∀ g, .group g ∈ log → ∀ cap ∈ g.steps, c.minimumGroupSteps ≤ cap
  repairs : ∀ g, .repair g ∈ log → ∃ cap ∈ g.hard, cap + g.tokensBefore ≤ total
  spent : s.tokens ≤ total

theorem default_fraction : (13 / 20 : ℚ) ≤ 1 := by norm_num

/-- 100 tokens for two groups of at least 10, a quarter of them for one repair round. -/
def Config.sample : Config :=
  { budget := some 100, minimumGroupTokens := 10, repairReserve := 25, maxRepairRounds := 1
    fraction_le_one := default_fraction }

/-- The first group uses 37 tokens, the second is not in time, and a repair uses what it is
given, `spent`; it ends the run. -/
def firstRun (spent : Nat) : Environment :=
  { groups := fun number => { session := "a", reports := [(20, 1), (37, 2)], inTime := number == 1 }
    check := { passed := false, repairTargets := ["t"] }
    rounds := fun _ =>
      { session := "r", reports := [(spent, 1)], check := { passed := true } } }

/-- The second group's session, in a pool with that balance. -/
def secondRun (live : Option Nat) : Environment :=
  { groups := fun _ => { live, session := "b", reports := [] } }

/-- The two runs, one after the other. -/
def twoRuns (spent : Nat) (live : Option Nat) : State × List Start :=
  let first := run .sample [1, 1] (firstRun spent) {}
  let second := run .sample [1, 1] (secondRun live) first.1
  (second.1, first.2 ++ second.2)

theorem lineage_twoRuns (spent : Nat) (live : Option Nat) :
    Lineage .sample [1, 1] (twoRuns spent live).1 (twoRuns spent live).2 := by
  have hfirst := Lineage.run (firstRun spent) (@Lineage.start .sample [1, 1])
  rw [List.nil_append] at hfirst
  have hsecond := hfirst.run (secondRun live)
  simp only [twoRuns]
  exact hsecond

/-- The grants of the groups in a log. -/
def groupGrants (log : List Start) : List Grant :=
  log.filterMap fun e => match e with
    | .group g => some g
    | _ => none

-- so it is where the repair of the first run has used what was left
example : (groupGrants (twoRuns 63 none).2).map (·.hard) = [some 37, some 38, some 0] := by
  decide +kernel

end OpenCollab.Weave
