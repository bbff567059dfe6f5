import Mathlib.Data.List.Perm.Basic
import Mathlib.Data.List.Nodup
import Mathlib.Data.List.Induction
import Mathlib.Algebra.BigOperators.Group.List.Basic

/-!
# OpenCollab.Lib.Dict

Dictionaries that keep the order in which keys were inserted: writing a key that
is present replaces its value in place, a new key goes to the end.

Sums over a dictionary split at a key (`sum_eq_add_erase`, `sum_set`), which is
how accounts over all entries follow the update of one.
-/

namespace OpenCollab.Lib

/-- Entries in insertion order, one for each key. -/
structure Dict (κ : Type*) (α : Type*) where
  entries : List (κ × α)
  nodup : (entries.map Prod.fst).Nodup

namespace Dict

variable {κ α M : Type*} [DecidableEq κ]

def empty : Dict κ α := ⟨[], List.nodup_nil⟩

instance instInhabited : Inhabited (Dict κ α) := ⟨empty⟩

/-- `d.get(key)`. -/
def get? (d : Dict κ α) (key : κ) : Option α := d.entries.lookup key

/-- `d.pop(key, None)`, the dictionary that remains. -/
def erase (d : Dict κ α) (key : κ) : Dict κ α where
  entries := d.entries.filter fun e => e.1 ≠ key
  nodup := d.nodup.sublist (List.filter_sublist.map Prod.fst)

/-- The value of `key` replaced where it is present. -/
def replace (entries : List (κ × α)) (key : κ) (value : α) : List (κ × α) :=
  entries.map fun e => if e.1 = key then (key, value) else e

theorem keys_replace (entries : List (κ × α)) (key : κ) (value : α) :
    (replace entries key value).map Prod.fst = entries.map Prod.fst := by
  rw [replace, List.map_map]
  refine List.map_congr_left fun e _ => ?_
  rw [Function.comp]
  split
  · rename_i he
    exact he.symm
  · rfl

/-- `d[key] = value`. -/
def set (d : Dict κ α) (key : κ) (value : α) : Dict κ α :=
  if h : key ∈ d.entries.map Prod.fst then
    ⟨replace d.entries key value, (keys_replace d.entries key value).symm ▸ d.nodup⟩
  else
    ⟨d.entries ++ [(key, value)], by
      rw [List.map_append, List.map_singleton]
      refine List.nodup_append.mpr ⟨d.nodup, List.nodup_singleton key, ?_⟩
      intro a ha b hb he
      rw [he, List.mem_singleton.mp hb] at ha
      exact h ha⟩

/-- `{key: value for …}`: the pairs written one after the other. -/
def ofPairs (pairs : List (κ × α)) : Dict κ α :=
  pairs.foldl (fun d e => d.set e.1 e.2) empty

/-- The sum of `f` over the entries. -/
def sum [AddCommMonoid M] (d : Dict κ α) (f : κ → α → M) : M :=
  (d.entries.map fun e => f e.1 e.2).sum

/-! ## entries -/

variable {d : Dict κ α} {key key' : κ} {value : α}

theorem lookup_cons (key : κ) (e : κ × α) (rest : List (κ × α)) :
    (e :: rest).lookup key = if key = e.1 then some e.2 else rest.lookup key := by
  rw [List.lookup_cons]
  by_cases he : key = e.1
  · rw [if_pos he, show (key == e.1) = true from beq_iff_eq.mpr he]
  · rw [if_neg he, show (key == e.1) = false from beq_false_of_ne he]

theorem lookup_eq_none {entries : List (κ × α)} :
    entries.lookup key = none ↔ key ∉ entries.map Prod.fst := by
  induction entries with
  | nil => simp
  | cons e rest ih =>
      rw [lookup_cons, List.map_cons, List.mem_cons, not_or, ← ih]
      split
      · rename_i he
        simp [he]
      · rename_i he
        simp [he]

theorem lookup_eq_some {entries : List (κ × α)} (hn : (entries.map Prod.fst).Nodup) :
    entries.lookup key = some value ↔ (key, value) ∈ entries := by
  induction entries with
  | nil => simp
  | cons e rest ih =>
      rw [List.map_cons, List.nodup_cons] at hn
      rw [lookup_cons, List.mem_cons]
      split
      · rename_i he
        subst he
        rw [Option.some.injEq]
        constructor
        · intro hv
          exact .inl (by rw [← hv])
        · rintro (hv | hv)
          · rw [← hv]
          · exact absurd (List.mem_map_of_mem (f := Prod.fst) hv) hn.1
      · rename_i he
        have hne : (key, value) ≠ e := fun h => he (by rw [← h])
        rw [ih hn.2]
        simp [hne]

theorem get?_eq_some : d.get? key = some value ↔ (key, value) ∈ d.entries :=
  lookup_eq_some d.nodup

theorem get?_eq_none : d.get? key = none ↔ key ∉ d.entries.map Prod.fst := lookup_eq_none

@[simp] theorem get?_empty (key : κ) : (empty : Dict κ α).get? key = none := rfl

theorem mem_erase {e : κ × α} : e ∈ (d.erase key).entries ↔ e ∈ d.entries ∧ e.1 ≠ key := by
  simp [erase, List.mem_filter]

theorem mem_set {e : κ × α} :
    e ∈ (d.set key value).entries ↔ e = (key, value) ∨ e ∈ d.entries ∧ e.1 ≠ key := by
  unfold set
  split
  · rename_i hk
    simp only [replace, List.mem_map]
    constructor
    · rintro ⟨e', he', rfl⟩
      split
      · exact .inl rfl
      · rename_i hne
        exact .inr ⟨he', hne⟩
    · rintro (rfl | ⟨he, hne⟩)
      · obtain ⟨e', he', hkey⟩ := List.mem_map.mp hk
        exact ⟨e', he', if_pos hkey⟩
      · exact ⟨e, he, if_neg hne⟩
  · rename_i hk
    rw [List.mem_append, List.mem_singleton, or_comm]
    refine or_congr_right ⟨fun he => ⟨he, fun hkey => ?_⟩, And.left⟩
    exact hk (hkey ▸ List.mem_map_of_mem he)

theorem get?_set_self : (d.set key value).get? key = some value :=
  get?_eq_some.mpr (mem_set.mpr (.inl rfl))

theorem get?_set_of_ne (hne : key' ≠ key) : (d.set key value).get? key' = d.get? key' := by
  refine Option.ext fun v => ?_
  rw [get?_eq_some, get?_eq_some, mem_set]
  constructor
  · rintro (h | h)
    · exact absurd (Prod.mk.inj h).1 hne
    · exact h.1
  · exact fun h => .inr ⟨h, hne⟩

/-- **A comprehension keeps the last value of each key.** -/
theorem get?_ofPairs {pairs : List (κ × α)} :
    (ofPairs pairs).get? key = some value ↔
      ∃ front back, pairs = front ++ (key, value) :: back ∧ key ∉ back.map Prod.fst := by
  induction pairs using List.reverseRecOn with
  | nil => simp [ofPairs]
  | append_singleton pairs e ih =>
      obtain ⟨k, v⟩ := e
      have hlast : ofPairs (pairs ++ [(k, v)]) = (ofPairs pairs).set k v := by
        rw [ofPairs, List.foldl_append]
        rfl
      rw [hlast]
      by_cases hk : key = k
      · subst hk
        rw [get?_set_self, Option.some.injEq]
        constructor
        · intro hv
          exact ⟨pairs, [], by rw [hv], List.not_mem_nil⟩
        · intro ⟨front, back, hcut, hnot⟩
          cases back using List.reverseRecOn with
          | nil =>
              have := (List.append_inj' hcut rfl).2
              grind
          | append_singleton back e _ =>
              rw [← List.cons_append, ← List.append_assoc] at hcut
              have := (List.append_inj' hcut rfl).2
              grind
      · rw [get?_set_of_ne hk, ih]
        constructor
        · intro ⟨front, back, hcut, hnot⟩
          refine ⟨front, back ++ [(k, v)], by rw [hcut, List.append_assoc, List.cons_append], ?_⟩
          rw [List.map_append, List.mem_append, not_or]
          exact ⟨hnot, by simpa using hk⟩
        · intro ⟨front, back, hcut, hnot⟩
          cases back using List.reverseRecOn with
          | nil =>
              have := (List.append_inj' hcut rfl).2
              grind
          | append_singleton back e _ =>
              rw [← List.cons_append, ← List.append_assoc] at hcut
              refine ⟨front, back, (List.append_inj' hcut rfl).1, ?_⟩
              rw [List.map_append, List.mem_append, not_or] at hnot
              exact hnot.1

/-- The same for a comprehension with a filter: what stands behind the value that is
kept has another key, or does not pass. -/
theorem get?_ofPairs_filterMap {ι : Type*} {items : List ι} {f : ι → Option α} {g : ι → κ} :
    (ofPairs (items.filterMap fun i => (f i).map (g i, ·))).get? key = some value ↔
      ∃ front item back, items = front ++ item :: back ∧ g item = key ∧ f item = some value ∧
        ∀ later ∈ back, g later = key → f later = none := by
  rw [get?_ofPairs]
  constructor
  · intro ⟨front, back, hcut, hnot⟩
    obtain ⟨items₁, items₂, rfl, -, hcut₂⟩ := List.filterMap_eq_append_iff.mp hcut
    obtain ⟨skipped, item, later, rfl, -, hitem, rfl⟩ := List.filterMap_eq_cons_iff.mp hcut₂
    obtain ⟨v, hv, heq⟩ := Option.map_eq_some_iff.mp hitem
    obtain ⟨hkey, rfl⟩ := Prod.mk.inj heq
    refine ⟨items₁ ++ skipped, item, later, by rw [List.append_assoc], hkey, hv, ?_⟩
    intro other hother hsame
    cases hf : f other with
    | none => rfl
    | some w =>
        refine absurd (List.mem_map.mpr ⟨(g other, w), ?_, hsame⟩) hnot
        rw [List.mem_filterMap]
        exact ⟨other, hother, by rw [hf, Option.map_some]⟩
  · intro ⟨front, item, back, hcut, hkey, hitem, hlater⟩
    refine ⟨front.filterMap fun i => (f i).map (g i, ·), back.filterMap fun i => (f i).map (g i, ·),
      ?_, ?_⟩
    · rw [hcut, List.filterMap_append, List.filterMap_cons, hitem, Option.map_some, hkey]
    · intro hmem
      obtain ⟨e, he, hsame⟩ := List.mem_map.mp hmem
      obtain ⟨other, hother, heq⟩ := List.mem_filterMap.mp he
      obtain ⟨w, hw, rfl⟩ := Option.map_eq_some_iff.mp heq
      rw [hlater other hother hsame] at hw
      contradiction

theorem get?_erase_self : (d.erase key).get? key = none := by
  rw [get?_eq_none, List.mem_map]
  rintro ⟨e, he, rfl⟩
  exact (mem_erase.mp he).2 rfl

theorem get?_erase_of_ne (hne : key' ≠ key) : (d.erase key).get? key' = d.get? key' := by
  refine Option.ext fun v => ?_
  rw [get?_eq_some, get?_eq_some, mem_erase]
  exact ⟨And.left, fun h => ⟨h, hne⟩⟩

/-! ## sums -/

theorem erase_of_none (hk : d.get? key = none) : (d.erase key).entries = d.entries := by
  rw [get?_eq_none] at hk
  refine List.filter_eq_self.mpr fun e he => ?_
  rw [decide_eq_true_eq]
  exact fun hkey => hk (hkey ▸ List.mem_map_of_mem he)

theorem perm_of_get? (hk : d.get? key = some value) :
    d.entries.Perm ((key, value) :: (d.erase key).entries) := by
  refine (List.perm_ext_iff_of_nodup (List.Nodup.of_map _ d.nodup) ?_).mpr ?_
  · rw [List.nodup_cons]
    refine ⟨fun h => (mem_erase.mp h).2 rfl, List.Nodup.of_map _ (d.erase key).nodup⟩
  · intro e
    rw [List.mem_cons, mem_erase]
    constructor
    · intro he
      by_cases hkey : e.1 = key
      · have hv : d.get? key = some e.2 := get?_eq_some.mpr (hkey ▸ he)
        rw [hk] at hv
        exact .inl (by rw [← hkey, Option.some.inj hv])
      · exact .inr ⟨he, hkey⟩
    · rintro (rfl | he)
      · exact get?_eq_some.mp hk
      · exact he.1

theorem erase_set (d : Dict κ α) (key : κ) (value : α) :
    ((d.set key value).erase key).entries.Perm (d.erase key).entries := by
  refine (List.perm_ext_iff_of_nodup (List.Nodup.of_map _ (erase _ key).nodup)
    (List.Nodup.of_map _ (d.erase key).nodup)).mpr fun e => ?_
  rw [mem_erase, mem_erase, mem_set]
  constructor
  · rintro ⟨rfl | he, hne⟩
    · exact absurd rfl hne
    · exact he
  · exact fun he => ⟨.inr he, he.2⟩

variable [AddCommMonoid M] {f g : κ → α → M}

omit [DecidableEq κ] in
@[simp] theorem sum_empty : (empty : Dict κ α).sum f = 0 := rfl

omit [DecidableEq κ] in
theorem sum_perm {d d' : Dict κ α} (hp : d.entries.Perm d'.entries) : d.sum f = d'.sum f :=
  (hp.map _).sum_eq

/-- **A sum splits** at a key that is present. -/
theorem sum_eq_add_erase (hk : d.get? key = some value) :
    d.sum f = f key value + (d.erase key).sum f := by
  rw [sum, ((perm_of_get? hk).map _).sum_eq, List.map_cons, List.sum_cons]
  rfl

theorem sum_erase_of_none (hk : d.get? key = none) : (d.erase key).sum f = d.sum f := by
  rw [sum, erase_of_none hk, sum]

/-- Writing a key replaces its share of a sum. -/
theorem sum_set (d : Dict κ α) (key : κ) (value : α) :
    (d.set key value).sum f = f key value + (d.erase key).sum f := by
  rw [sum_eq_add_erase get?_set_self, sum_perm (erase_set d key value)]

omit [DecidableEq κ] in
theorem sum_congr (h : ∀ e ∈ d.entries, f e.1 e.2 = g e.1 e.2) : d.sum f = d.sum g := by
  rw [sum, List.map_congr_left h, sum]

omit [DecidableEq κ] in
theorem sum_add : (d.sum fun k v => f k v + g k v) = d.sum f + d.sum g := by
  rw [sum, List.sum_map_add]
  rfl

omit [DecidableEq κ] in
theorem sum_eq_zero {d : Dict κ α} {f : κ → α → Nat} :
    d.sum f = 0 ↔ ∀ e ∈ d.entries, f e.1 e.2 = 0 := by
  rw [sum, List.sum_eq_zero_iff_forall_eq_nat, List.forall_mem_map]

end Dict

end OpenCollab.Lib
