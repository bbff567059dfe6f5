import Mathlib.Data.Finset.Image
import OpenCollab.Text

/-!
# OpenCollab.Team.Roles

The roles of a team, and what is decided by a role: `domain/identity.py`,
`domain/team.py`, and the lookups of `bootstrap/team_config.py`,
`bootstrap/context_builder.py`, `adapters/session_environments.py` and the
scheduler.

A role has one *name*, normalised to NFC, and a *key*, the name case-folded: names
with one key are spellings of one role.  `RoleName` carries the proof that it is
what `validate_role_identity` returns, `RoleDict` that no two of its names are
spellings of one role, and `TeamConfig` that its topology spells declared roles as
they were declared.

Some lookups go by key (`findRole`), some by the exact name (`get?`); each is
written here the way the source does it.
-/

namespace OpenCollab.Team

/-! ## names -/

/-- What the program takes from Unicode: the normal form NFC, case folding, and the
characters of the categories Cc, Cf and Cs. -/
structure Unicode where
  nfc : String → String
  casefold : String → String
  isControl : Char → Bool
  nfc_nfc : ∀ s, nfc (nfc s) = nfc s

variable {u : Unicode}

/-- The checks of `validate_role_identity` on a normalised name. -/
def isSafeName (u : Unicode) (normalized : String) : Bool :=
  normalized ≠ "" && strip normalized = normalized && normalized ≠ "." && normalized ≠ ".." &&
    normalized.toList.all (fun c => c.toNat ≠ 0x2F && c.toNat ≠ 0x5C && !u.isControl c) &&
    normalized.utf8ByteSize ≤ 128

/-- A role identity: one safe path component in normal form. -/
structure RoleName (u : Unicode) where
  name : String
  normal : u.nfc name = name
  safe : isSafeName u name = true

instance : DecidableEq (RoleName u) := fun a b =>
  decidable_of_iff (a.name = b.name) (by cases a; cases b; simp)

/-- `validate_role_identity`; `none` is its `ValueError`. -/
def validateRoleIdentity (u : Unicode) (value : String) : Option (RoleName u) :=
  if h : isSafeName u (u.nfc value) = true then some ⟨u.nfc value, u.nfc_nfc value, h⟩ else none

/-- `role_collision_key`. -/
def RoleName.key (r : RoleName u) : String := u.casefold r.name

/-- A name is what its own validation returns, so that checking it again is the
identity. -/
theorem validateRoleIdentity_name (r : RoleName u) : validateRoleIdentity u r.name = some r := by
  have hsafe : isSafeName u (u.nfc r.name) = true := by rw [r.normal, r.safe]
  rw [validateRoleIdentity, dif_pos hsafe]
  cases r with
  | mk name normal safe => simp [normal]

/-! ## dicts keyed by role -/

/-- A dict keyed by role names, no two of them spellings of one role. -/
structure RoleDict (u : Unicode) (α : Type) where
  entries : List (RoleName u × α)
  distinct : (entries.map fun e => e.1.key).Nodup

namespace RoleDict

variable {α β : Type}

/-- The names, in order of declaration. -/
def names (d : RoleDict u α) : List (RoleName u) := d.entries.map Prod.fst

/-- `d.get(name)`: by the exact name. -/
def get? (d : RoleDict u α) (r : RoleName u) : Option α := d.entries.lookup r

/-- The entry whose name has this key, as a loop over the items finds it. -/
def findRole (d : RoleDict u α) (key : String) : Option (RoleName u × α) :=
  d.entries.find? fun e => e.1.key = key

/-- The name under which the role was declared, or else the name itself
(`role_names.get(role_collision_key(role), role)`). -/
def canonical (d : RoleDict u α) (r : RoleName u) : RoleName u :=
  ((d.findRole r.key).map Prod.fst).getD r

/-- Validated items, unless two names collide. -/
def ofItems (u : Unicode) (items : List (String × α)) : Option (RoleDict u α) := do
  let entries ← items.mapM fun item =>
    (validateRoleIdentity u item.1).map fun name => (name, item.2)
  if h : (entries.map fun e => e.1.key).Nodup then some ⟨entries, h⟩ else none

theorem findRole_some {d : RoleDict u α} {key : String} {e : RoleName u × α}
    (h : d.findRole key = some e) : e ∈ d.entries ∧ e.1.key = key :=
  ⟨List.mem_of_find?_eq_some h, by simpa using List.find?_some h⟩

/-- One key, one entry. -/
theorem eq_of_key {d : RoleDict u α} {e e' : RoleName u × α} (he : e ∈ d.entries)
    (he' : e' ∈ d.entries) (h : e.1.key = e'.1.key) : e = e' :=
  List.inj_on_of_nodup_map d.distinct he he' h

theorem findRole_of_mem {d : RoleDict u α} {e : RoleName u × α} (he : e ∈ d.entries) :
    d.findRole e.1.key = some e := by
  cases hf : d.findRole e.1.key with
  | none =>
      have hnone := List.find?_eq_none.mp hf e he
      simp at hnone
  | some e' =>
      obtain ⟨he', hkey⟩ := findRole_some hf
      rw [eq_of_key he' he hkey]

@[simp] theorem key_canonical (d : RoleDict u α) (r : RoleName u) : (d.canonical r).key = r.key := by
  unfold canonical
  cases hf : d.findRole r.key with
  | none => rfl
  | some e => exact (findRole_some hf).2

@[simp] theorem canonical_canonical (d : RoleDict u α) (r : RoleName u) :
    d.canonical (d.canonical r) = d.canonical r := by
  rw [canonical, key_canonical]
  unfold canonical
  cases d.findRole r.key with
  | none => rfl
  | some e => rfl

/-- The exact lookup finds the entry of a role under its declared name only. -/
theorem get?_eq {d : RoleDict u α} {r : RoleName u} :
    d.get? r = ((d.findRole r.key).filter fun e => e.1 = r).map Prod.snd := by
  cases hg : d.get? r with
  | some value =>
      have hmem : (r, value) ∈ d.entries := by
        obtain ⟨before, after, hsplit, -⟩ := List.lookup_eq_some_iff.mp hg
        rw [hsplit]
        exact List.mem_append_right _ List.mem_cons_self
      rw [findRole_of_mem hmem]
      simp
  | none =>
      cases hf : d.findRole r.key with
      | none => rfl
      | some e =>
          by_cases he : e.1 = r
          · have hne := List.lookup_eq_none_iff.mp hg e (findRole_some hf).1
            simp [he] at hne
          · simp [he]

/-- The values are mapped, and the names to spellings of their role. -/
def mapEntries (d : RoleDict u α) (name : RoleName u → RoleName u) (value : α → β)
    (h : ∀ r, (name r).key = r.key) : RoleDict u β where
  entries := d.entries.map fun e => (name e.1, value e.2)
  distinct := by
    have hkeys : (d.entries.map fun e => (name e.1, value e.2)).map (fun e => e.1.key)
        = d.entries.map fun e => e.1.key := by
      rw [List.map_map]
      exact List.map_congr_left fun e _ => h e.1
    rw [hkeys]
    exact d.distinct

end RoleDict

/-! ## the team -/

/-- A role definition, as far as it is looked up here. -/
structure RoleConfig where
  prompt : String
  model : Option String := none
  tools : List String := []
  profile : Option String := none
  isolation : Option String := none
  budgetTokens : Option Nat := none
deriving DecidableEq, Repr

/-- `Topology`, its names validated. -/
structure Topology (u : Unicode) where
  edges : RoleDict u (Finset (RoleName u))
  allowAll : Bool

/-- `Topology.__post_init__`; `none` is its `ValueError`. -/
def Topology.postInit (u : Unicode) (edges : List (String × List String)) (allowAll : Bool) :
    Option (Topology u) := do
  let items ← edges.mapM fun edge => do
    let destinations ← edge.2.mapM (validateRoleIdentity u)
    if (destinations.map RoleName.key).Nodup then some (edge.1, destinations.toFinset) else none
  return { edges := ← RoleDict.ofItems u items, allowAll := allowAll }

/-- `TeamConfig`, after `__post_init__`. -/
structure TeamConfig (u : Unicode) where
  roles : RoleDict u RoleConfig
  topology : Topology u
  entry : String
  source_canonical : ∀ e ∈ topology.edges.entries, roles.canonical e.1 = e.1
  destination_canonical : ∀ e ∈ topology.edges.entries, ∀ d ∈ e.2, roles.canonical d = d

/-- The entry role: the one named, as it was declared, or else `lead`, or else the
first one. -/
def entryRole (roles : RoleDict u RoleConfig) (entry : Option String) : Option String :=
  match entry with
  | none =>
      some (((roles.findRole "lead").map fun e => e.1.name).getD
        ((roles.names.head?.map RoleName.name).getD "lead"))
  | some raw => do
      let entry ← validateRoleIdentity u raw
      if roles.entries = [] then some entry.name
      else (roles.findRole entry.key).map fun e => e.1.name

/-- Some roles have a token budget while others do not. -/
def partlyBudgeted (roles : RoleDict u RoleConfig) : Bool :=
  roles.entries.any (fun e => e.2.budgetTokens.isNone) &&
    roles.entries.any (fun e => e.2.budgetTokens.isSome)

/-- `TeamConfig.__post_init__`; `none` is a `ValueError`. -/
def TeamConfig.postInit (roles : List (String × RoleConfig)) (topology : Topology u)
    (entry : Option String) : Option (TeamConfig u) := do
  let roles ← RoleDict.ofItems u roles
  let entry ← entryRole roles entry
  if partlyBudgeted roles then none
  else return {
    roles := roles
    topology := {
      edges := topology.edges.mapEntries roles.canonical (Finset.image roles.canonical)
        roles.key_canonical
      allowAll := topology.allowAll }
    entry := entry
    source_canonical := by
      intro e he
      obtain ⟨e', -, rfl⟩ := List.mem_map.mp he
      exact roles.canonical_canonical e'.1
    destination_canonical := by
      intro e he d hd
      obtain ⟨e', -, rfl⟩ := List.mem_map.mp he
      obtain ⟨d', -, rfl⟩ := Finset.mem_image.mp hd
      exact roles.canonical_canonical d' }

/-! ## lookups -/

/-- `Topology.allows`. -/
def Topology.allows (t : Topology u) (src dst : RoleName u) : Bool :=
  t.allowAll || match t.edges.findRole src.key with
    | none => false
    | some (_, destinations) => decide (∃ d ∈ destinations, d.key = dst.key)

/-- `TeamConfig.role_for`; `fallback` is the generic role of an undeclared name. -/
def TeamConfig.roleFor (team : TeamConfig u) (fallback : RoleConfig) (r : RoleName u) : RoleConfig :=
  ((team.roles.findRole r.key).map Prod.snd).getD fallback

/-- Tools that let a role act on teammates. -/
def COORDINATION_TOOL_NAMES : List String :=
  ["adopt_agent", "spawn_agent", "spawn_with_review", "message_agent", "team_status"]

/-- The role has a tool to act on teammates with. -/
def RoleConfig.coordinates (config : RoleConfig) : Bool :=
  config.tools.any fun tool => tool ∈ COORDINATION_TOOL_NAMES

/-- The roles that `ContextBuilder._team_section` lists for a role, if it renders the
section at all; the prompt shows them sorted. -/
def TeamConfig.teamSection (team : TeamConfig u) (fallback : RoleConfig) (r : RoleName u) :
    Option (Finset (RoleName u)) :=
  if !(team.roleFor fallback r).coordinates then none
  else some (if team.topology.allowAll then team.roles.names.toFinset
    else (team.topology.edges.get? r).getD ∅)

/-- The declared roles that `_check_topology` lets an agent of the role address. -/
def TeamConfig.addressable (team : TeamConfig u) (r : RoleName u) : Finset (RoleName u) :=
  team.roles.names.toFinset.filter fun d => team.topology.allows r d

/-- The strategy `SessionEnvironmentPool.acquire(role)` chooses; `default` is that of
the pool. -/
def TeamConfig.acquireIsolation (team : TeamConfig u) (default : String) (r : RoleName u) : String :=
  ((team.roles.get? r).bind RoleConfig.isolation).getD default

/-- `TeamConfig.role_budgets` is not empty. -/
def TeamConfig.declaresBudgets (team : TeamConfig u) : Bool :=
  !team.roles.entries.isEmpty && team.roles.entries.all fun e => e.2.budgetTokens.isSome

/-- How the scheduler seats a team.  Its constructor refuses budgets per role unless
the roster is built up front. -/
structure Seating (team : TeamConfig u) where
  prebuildTeam : Bool
  perAgentCap : Nat
  budgets_prebuilt : team.declaresBudgets = true → prebuildTeam = true

/-- `_agent_cap(aid, role)`: `none` is a `KeyError`, `some none` no cap. -/
def agentCap {team : TeamConfig u} (seating : Seating team) (r : RoleName u) : Option (Option Nat) :=
  if team.declaresBudgets then ((team.roles.get? r).bind RoleConfig.budgetTokens).map some
  else some (if seating.prebuildTeam then some seating.perAgentCap else none)

/-- What a spawn is given: `none` where a prebuilt team refuses it, and else its cap. -/
def spawnAllowance {team : TeamConfig u} (seating : Seating team) (r : RoleName u) :
    Option (Option (Option Nat)) :=
  if seating.prebuildTeam then none else some (agentCap seating r)

/-- Line ends as `\n`. -/
def normalizeNewlines (text : String) : String := (text.replace "\r\n" "\n").replace "\r" "\n"

/-- `_task_key`, for a digest of the length-prefixed texts. -/
def taskKey (digest : List String → String) (parentAid : Nat) (r : RoleName u)
    (task context : String) : String :=
  digest [toString parentAid, r.key, normalizeNewlines task, normalizeNewlines context]

end OpenCollab.Team
