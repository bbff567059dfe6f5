import OpenCollab.Team.Roles

/-!
# OpenCollab.Team.Policy

What the spelling of a role decides.  Lookups by key give every spelling of a role
the same answer; the two lookups by exact name, of the isolation strategy and of the
destinations listed in the prompt, do so only under a condition on the team:

* `allows_congr`, `allows_congr_dst`, `roleFor_congr`, `entryRole_congr`,
  `spawnAllowance_congr`, `taskKey_congr`: the decisions that never depend on the spelling;
* `acquireIsolation_eq_iff`: the isolation strategy;
* `listed_eq_addressable_iff`: when the prompt lists what the topology permits;
* `spelling_keeps_policy`: both together, exactly when all decisions agree.
-/

namespace OpenCollab.Team

variable {u : Unicode} {team : TeamConfig u} {r₁ r₂ : RoleName u}

/-! ## decisions by key -/

theorem allows_congr (t : Topology u) (h : r₁.key = r₂.key) (dst : RoleName u) :
    t.allows r₁ dst = t.allows r₂ dst := by
  rw [Topology.allows, Topology.allows, h]

theorem allows_congr_dst (t : Topology u) (h : r₁.key = r₂.key) (src : RoleName u) :
    t.allows src r₁ = t.allows src r₂ := by
  rw [Topology.allows, Topology.allows, h]

theorem roleFor_congr (fallback : RoleConfig) (h : r₁.key = r₂.key) :
    team.roleFor fallback r₁ = team.roleFor fallback r₂ := by
  rw [TeamConfig.roleFor, TeamConfig.roleFor, h]

theorem addressable_congr (h : r₁.key = r₂.key) : team.addressable r₁ = team.addressable r₂ := by
  unfold TeamConfig.addressable
  congr 1
  funext d
  rw [allows_congr team.topology h d]

/-- An entry named by a role is the declared role, or that name where none is declared. -/
theorem entryRole_some (roles : RoleDict u RoleConfig) (r : RoleName u) :
    entryRole roles (some r.name) =
      if roles.entries = [] then some r.name
      else (roles.findRole r.key).map fun e => e.1.name := by
  simp only [entryRole, validateRoleIdentity_name]
  rfl

theorem entryRole_congr {roles : RoleDict u RoleConfig} (hroles : roles.entries ≠ [])
    (h : r₁.key = r₂.key) : entryRole roles (some r₁.name) = entryRole roles (some r₂.name) := by
  rw [entryRole_some, entryRole_some, if_neg hroles, if_neg hroles, h]

theorem entryRole_key_congr (roles : RoleDict u RoleConfig) (h : r₁.key = r₂.key) :
    (entryRole roles (some r₁.name)).map u.casefold =
      (entryRole roles (some r₂.name)).map u.casefold := by
  by_cases hroles : roles.entries = []
  · rw [entryRole_some, entryRole_some, if_pos hroles, if_pos hroles]
    exact congrArg some h
  · rw [entryRole_congr hroles h]

theorem taskKey_congr (digest : List String → String) (parentAid : Nat) (h : r₁.key = r₂.key)
    (task context : String) :
    taskKey digest parentAid r₁ task context = taskKey digest parentAid r₂ task context := by
  rw [taskKey, taskKey, h]

/-- `_agent_cap` looks up the exact name, but only in a team with budgets, and there a
spawn is refused before. -/
theorem spawnAllowance_congr (seating : Seating team) :
    spawnAllowance seating r₁ = spawnAllowance seating r₂ := by
  unfold spawnAllowance
  by_cases hprebuilt : seating.prebuildTeam = true
  · rw [if_pos hprebuilt, if_pos hprebuilt]
  · have hbudgets : ¬ team.declaresBudgets = true := fun h => hprebuilt (seating.budgets_prebuilt h)
    rw [if_neg hprebuilt, if_neg hprebuilt, agentCap, agentCap, if_neg hbudgets, if_neg hbudgets]

/-! ## the isolation strategy -/

/-- A strategy declared for the role is the default one, or both names are the declared
one, or neither is. -/
def IsolationAgrees (team : TeamConfig u) (default : String) (r₁ r₂ : RoleName u) : Prop :=
  ∀ e ∈ team.roles.entries, e.1.key = r₁.key →
    ∀ strategy, e.2.isolation = some strategy →
      strategy = default ∨ (r₁ = e.1 ↔ r₂ = e.1)

/-- The strategy for a spelling of a declared role. -/
theorem acquireIsolation_of_mem {default : String} {r : RoleName u} {e : RoleName u × RoleConfig}
    (he : e ∈ team.roles.entries) (hkey : e.1.key = r.key) :
    team.acquireIsolation default r = if e.1 = r then e.2.isolation.getD default else default := by
  have hfind : team.roles.findRole r.key = some e := by
    rw [← hkey]
    exact RoleDict.findRole_of_mem he
  rw [TeamConfig.acquireIsolation, RoleDict.get?_eq, hfind]
  by_cases hname : e.1 = r
  · simp [Option.filter, hname]
  · simp [Option.filter, hname]

/-- An undeclared role has the default strategy. -/
theorem acquireIsolation_of_not_mem {default : String} {r : RoleName u}
    (h : ∀ e ∈ team.roles.entries, e.1.key ≠ r.key) :
    team.acquireIsolation default r = default := by
  have hfind : team.roles.findRole r.key = none :=
    List.find?_eq_none.mpr fun e he => by simpa using h e he
  rw [TeamConfig.acquireIsolation, RoleDict.get?_eq, hfind]
  rfl

/-- **The strategy of two spellings** is the same exactly if the team's isolation
agrees on them. -/
theorem acquireIsolation_eq_iff {default : String} (h : r₁.key = r₂.key) :
    team.acquireIsolation default r₁ = team.acquireIsolation default r₂ ↔
      IsolationAgrees team default r₁ r₂ := by
  by_cases hdeclared : ∃ e ∈ team.roles.entries, e.1.key = r₁.key
  · obtain ⟨e, he, hkey⟩ := hdeclared
    have hagrees : IsolationAgrees team default r₁ r₂ ↔
        ∀ strategy, e.2.isolation = some strategy →
          strategy = default ∨ (r₁ = e.1 ↔ r₂ = e.1) := by
      constructor
      · intro hall
        exact hall e he hkey
      · intro hone e' he' hkey'
        rw [RoleDict.eq_of_key he' he (hkey'.trans hkey.symm)]
        exact hone
    rw [hagrees, acquireIsolation_of_mem he hkey, acquireIsolation_of_mem he (hkey.trans h)]
    cases e.2.isolation with
    | none => simp
    | some strategy => grind
  · have hnone : ∀ e ∈ team.roles.entries, e.1.key ≠ r₁.key :=
      fun e he hkey => hdeclared ⟨e, he, hkey⟩
    rw [acquireIsolation_of_not_mem hnone, acquireIsolation_of_not_mem (h ▸ hnone)]
    constructor
    · intro _ e he hkey
      exact absurd hkey (hnone e he)
    · intro _
      rfl

/-! ## the list in the prompt -/

/-- The destinations of a role are declared under their exact name if the role is
named as its edges are, and undeclared if it is not. -/
def ListAgrees (team : TeamConfig u) (r : RoleName u) : Prop :=
  team.topology.allowAll = true ∨
    ∀ e ∈ team.topology.edges.entries, e.1.key = r.key →
      ∀ d ∈ e.2, d ∈ team.roles.names ↔ r = e.1

/-- A declared name that a destination spells is the destination. -/
theorem eq_destination {e : RoleName u × Finset (RoleName u)} (he : e ∈ team.topology.edges.entries)
    {d name : RoleName u} (hd : d ∈ e.2) (hname : name ∈ team.roles.names) (h : d.key = name.key) :
    d = name := by
  obtain ⟨entry, hentry, rfl⟩ := List.mem_map.mp hname
  rw [← team.destination_canonical e he d hd, RoleDict.canonical, h, RoleDict.findRole_of_mem hentry]
  rfl

/-- What the topology permits a role with edges, among the declared roles. -/
theorem mem_addressable_of_mem {r name : RoleName u} (hclosed : team.topology.allowAll = false)
    {e : RoleName u × Finset (RoleName u)} (he : e ∈ team.topology.edges.entries)
    (hkey : e.1.key = r.key) :
    name ∈ team.addressable r ↔ name ∈ team.roles.names ∧ name ∈ e.2 := by
  have hfind : team.topology.edges.findRole r.key = some e := by
    rw [← hkey]
    exact RoleDict.findRole_of_mem he
  have hallows : team.topology.allows r name = true ↔ ∃ d ∈ e.2, d.key = name.key := by
    rw [Topology.allows, hclosed, hfind]
    simp
  rw [TeamConfig.addressable, Finset.mem_filter, List.mem_toFinset, hallows]
  constructor
  · intro ⟨hname, d, hd, hdkey⟩
    have heq : d = name := eq_destination he hd hname hdkey
    exact ⟨hname, heq ▸ hd⟩
  · intro ⟨hname, hd⟩
    exact ⟨hname, name, hd, rfl⟩

/-- A role without edges may address none of the declared roles. -/
theorem addressable_of_not_mem {r : RoleName u} (hclosed : team.topology.allowAll = false)
    (h : ∀ e ∈ team.topology.edges.entries, e.1.key ≠ r.key) : team.addressable r = ∅ := by
  have hfind : team.topology.edges.findRole r.key = none :=
    List.find?_eq_none.mpr fun e he => by simpa using h e he
  ext name
  simp [TeamConfig.addressable, Topology.allows, hclosed, hfind]

/-- The destinations listed for a role, by the exact name its edges have. -/
theorem listed_of_mem {r : RoleName u} {e : RoleName u × Finset (RoleName u)}
    (he : e ∈ team.topology.edges.entries) (hkey : e.1.key = r.key) :
    (team.topology.edges.get? r).getD ∅ = if e.1 = r then e.2 else ∅ := by
  have hfind : team.topology.edges.findRole r.key = some e := by
    rw [← hkey]
    exact RoleDict.findRole_of_mem he
  rw [RoleDict.get?_eq, hfind]
  by_cases hname : e.1 = r
  · simp [Option.filter, hname]
  · simp [Option.filter, hname]

/-- **The prompt lists what the topology permits** exactly if the list agrees. -/
theorem listed_eq_addressable_iff {r : RoleName u} :
    (if team.topology.allowAll then team.roles.names.toFinset
      else (team.topology.edges.get? r).getD ∅) = team.addressable r ↔ ListAgrees team r := by
  cases hall : team.topology.allowAll with
  | true =>
      have hevery : team.addressable r = team.roles.names.toFinset :=
        Finset.filter_true_of_mem fun d _ => by simp [Topology.allows, hall]
      rw [if_pos rfl, hevery]
      exact ⟨fun _ => Or.inl hall, fun _ => rfl⟩
  | false =>
      rw [if_neg Bool.false_ne_true]
      by_cases hedges : ∃ e ∈ team.topology.edges.entries, e.1.key = r.key
      · obtain ⟨e, he, hkey⟩ := hedges
        have hagrees : ListAgrees team r ↔ ∀ d ∈ e.2, d ∈ team.roles.names ↔ r = e.1 := by
          constructor
          · intro h
            cases h with
            | inl h => exact absurd (hall.symm.trans h) Bool.false_ne_true
            | inr h => exact h e he hkey
          · intro h
            refine Or.inr fun e' he' hkey' => ?_
            rw [RoleDict.eq_of_key he' he (hkey'.trans hkey.symm)]
            exact h
        rw [hagrees, listed_of_mem he hkey, Finset.ext_iff]
        simp only [mem_addressable_of_mem hall he hkey]
        by_cases hname : e.1 = r
        · simp only [hname, if_true, iff_true]
          grind
        · have hname' : ¬ r = e.1 := fun h => hname h.symm
          simp only [hname, hname', if_false, iff_false, Finset.notMem_empty, false_iff]
          grind
      · have hnone : ∀ e ∈ team.topology.edges.entries, e.1.key ≠ r.key :=
          fun e he hkey => hedges ⟨e, he, hkey⟩
        have hfind : team.topology.edges.findRole r.key = none :=
          List.find?_eq_none.mpr fun e he => by simpa using hnone e he
        rw [addressable_of_not_mem hall hnone, RoleDict.get?_eq, hfind]
        constructor
        · intro _
          exact Or.inr fun e he hkey => absurd hkey (hnone e he)
        · intro _
          rfl

/-! ## every decision -/

/-- Two spellings of a role decide alike: as the source and as the destination of an
edge, the role and the entry they name, what a spawn is given, where it works, the key
of its task and the list in its prompt; and the list is what the role may address. -/
structure SamePolicy (team : TeamConfig u) (fallback : RoleConfig) (seating : Seating team)
    (default : String) (digest : List String → String) (r₁ r₂ : RoleName u) : Prop where
  source : ∀ dst, team.topology.allows r₁ dst = team.topology.allows r₂ dst
  destination : ∀ src, team.topology.allows src r₁ = team.topology.allows src r₂
  role : team.roleFor fallback r₁ = team.roleFor fallback r₂
  entry : team.roles.entries ≠ [] →
    entryRole team.roles (some r₁.name) = entryRole team.roles (some r₂.name)
  entry_key : (entryRole team.roles (some r₁.name)).map u.casefold =
    (entryRole team.roles (some r₂.name)).map u.casefold
  allowance : spawnAllowance seating r₁ = spawnAllowance seating r₂
  isolation : team.acquireIsolation default r₁ = team.acquireIsolation default r₂
  task : ∀ parentAid task context,
    taskKey digest parentAid r₁ task context = taskKey digest parentAid r₂ task context
  prompt : team.teamSection fallback r₁ = team.teamSection fallback r₂
  listed : ∀ r ∈ [r₁, r₂], ∀ list, team.teamSection fallback r = some list →
    list = team.addressable r

/-- A role that coordinates is shown its list. -/
theorem lists_iff {fallback : RoleConfig} {r : RoleName u} :
    (∀ list, team.teamSection fallback r = some list → list = team.addressable r) ↔
      ((team.roleFor fallback r).coordinates = true → ListAgrees team r) := by
  rw [← listed_eq_addressable_iff, TeamConfig.teamSection]
  cases hcoordinates : (team.roleFor fallback r).coordinates with
  | true => simp
  | false => simp

/-- The sections of two spellings that both list what they may address are the same. -/
theorem teamSection_congr {fallback : RoleConfig} (h : r₁.key = r₂.key)
    (hlist : ∀ r ∈ [r₁, r₂], ∀ list, team.teamSection fallback r = some list →
      list = team.addressable r) :
    team.teamSection fallback r₁ = team.teamSection fallback r₂ := by
  have hrole : team.roleFor fallback r₁ = team.roleFor fallback r₂ := roleFor_congr fallback h
  cases hcoordinates : (team.roleFor fallback r₂).coordinates with
  | false => simp [TeamConfig.teamSection, hrole, hcoordinates]
  | true =>
      have hshown : ∀ r, (team.roleFor fallback r).coordinates = true →
          ∃ list, team.teamSection fallback r = some list := by
        intro r hr
        simp [TeamConfig.teamSection, hr]
      obtain ⟨list₁, hlist₁⟩ := hshown r₁ (by rw [hrole, hcoordinates])
      obtain ⟨list₂, hlist₂⟩ := hshown r₂ hcoordinates
      rw [hlist₁, hlist₂, hlist r₁ (by simp) list₁ hlist₁, hlist r₂ (by simp) list₂ hlist₂,
        addressable_congr h]

/-- **The spelling of a role** changes no decision exactly if the team's isolation
agrees on the two spellings and, for a role that is shown its team, the destinations of
both are declared or not as the list takes them to be. -/
theorem spelling_keeps_policy (team : TeamConfig u) (fallback : RoleConfig)
    (seating : Seating team) (default : String) (digest : List String → String)
    (r₁ r₂ : RoleName u) (h : r₁.key = r₂.key) :
    SamePolicy team fallback seating default digest r₁ r₂ ↔
      IsolationAgrees team default r₁ r₂ ∧
        ((team.roleFor fallback r₁).coordinates = true →
          ListAgrees team r₁ ∧ ListAgrees team r₂) := by
  have hrole : team.roleFor fallback r₁ = team.roleFor fallback r₂ := roleFor_congr fallback h
  constructor
  · intro hsame
    refine ⟨(acquireIsolation_eq_iff h).mp hsame.isolation, fun hcoordinates => ⟨?_, ?_⟩⟩
    · exact lists_iff.mp (hsame.listed r₁ (by simp)) hcoordinates
    · exact lists_iff.mp (hsame.listed r₂ (by simp)) (hrole ▸ hcoordinates)
  · intro ⟨hisolation, hlists⟩
    have hlisted : ∀ r ∈ [r₁, r₂], ∀ list, team.teamSection fallback r = some list →
        list = team.addressable r := by
      intro r hr
      rw [lists_iff]
      intro hcoordinates
      simp only [List.mem_cons, List.not_mem_nil, or_false] at hr
      cases hr with
      | inl hr => exact hr ▸ (hlists (hr ▸ hcoordinates)).1
      | inr hr => exact hr ▸ (hlists (hrole ▸ hr ▸ hcoordinates)).2
    exact {
      source := allows_congr team.topology h
      destination := allows_congr_dst team.topology h
      role := hrole
      entry := fun hroles => entryRole_congr hroles h
      entry_key := entryRole_key_congr team.roles h
      allowance := spawnAllowance_congr seating
      isolation := (acquireIsolation_eq_iff h).mpr hisolation
      task := fun parentAid => taskKey_congr digest parentAid h
      prompt := teamSection_congr h hlisted
      listed := hlisted }

/-- Unicode on ASCII names. -/
def asciiNames : Unicode where
  nfc := id
  casefold s := String.ofList (s.toList.map Char.toLower)
  isControl _ := false
  nfc_nfc _ := rfl

def coderName : RoleName asciiNames := ⟨"coder", rfl, by decide⟩

def coderCapital : RoleName asciiNames := ⟨"Coder", rfl, by decide⟩

def reviewerName : RoleName asciiNames := ⟨"reviewer", rfl, by decide⟩

/-- A coder that may spawn a reviewer, with a workspace of its own or not. -/
def coderTeam (isolation : Option String) (allowAll : Bool) : TeamConfig asciiNames where
  roles := {
    entries := [(coderName, { prompt := "code", tools := ["spawn_agent"], isolation := isolation }),
      (reviewerName, { prompt := "review" })]
    distinct := by
      have hkeys : coderName.key ≠ reviewerName.key := by decide
      simp [hkeys] }
  topology := { edges := { entries := [(coderName, {reviewerName})], distinct := by decide }
                allowAll := allowAll }
  entry := "coder"
  source_canonical := by simp [RoleDict.canonical, RoleDict.findRole]
  destination_canonical := by
    have hkeys : coderName.key ≠ reviewerName.key := by decide
    simp [RoleDict.canonical, RoleDict.findRole, hkeys]

/-- A team without budgets, its agents spawned as they are needed. -/
def spawning (isolation : Option String) (allowAll : Bool) : Seating (coderTeam isolation allowAll) :=
  { prebuildTeam := false, perAgentCap := 0,
    budgets_prebuilt := by simp [TeamConfig.declaresBudgets, coderTeam] }

/-- `Coder` may address the reviewer as `coder` may, but its prompt lists nobody, and it
works in another place. -/
theorem spelling_changes_policy :
    coderName.key = coderCapital.key ∧
      (coderTeam (some "docker-session") false).topology.allows coderCapital reviewerName = true ∧
      (coderTeam (some "docker-session") false).teamSection { prompt := "generic" } coderCapital =
        some ∅ ∧
      ¬ SamePolicy (coderTeam (some "docker-session") false) { prompt := "generic" }
        (spawning (some "docker-session") false) "shared" String.join coderName coderCapital :=
  ⟨by decide, by decide, by decide, fun h => absurd h.isolation (by decide)⟩

theorem spelling_keeps_policy_sample :
    SamePolicy (coderTeam none true) { prompt := "generic" } (spawning none true) "shared"
      String.join coderName coderCapital := by
  have h : coderName.key = coderCapital.key := by decide
  apply (spelling_keeps_policy (coderTeam none true) { prompt := "generic" } (spawning none true)
    "shared" String.join coderName coderCapital h).mpr
  refine ⟨?_, fun _ => ⟨Or.inl rfl, Or.inl rfl⟩⟩
  intro e he _ strategy hstrategy
  simp only [coderTeam, List.mem_cons, List.not_mem_nil, or_false] at he
  cases he with
  | inl he => simp [he] at hstrategy
  | inr he => simp [he] at hstrategy

end OpenCollab.Team
