import OpenCollab.Schema.Validate

/-!
# OpenCollab.Schema.Meaning

What a schema means, and that the check of a value is the decision of it.

* `jsonEqual_iff` — the equality of the code is that of JSON values;
* `checkName_iff` — the type names of the code are those of JSON Schema;
* `formed_of_valid` — what a schema without errors looks like;
* `nodeErrors_spec` — the check of one node, where those below it are right;
* `validate_decides` — an empty list of errors is the meaning of the schema.
-/

namespace OpenCollab.Schema

variable {py : Python}

/-! ## equality of values -/

/-- **Equality of JSON values**: numbers are equal as numbers, arrays element by element, and
objects key by key. -/
inductive SameValue (py : Python) : Json → Json → Prop where
  | null : SameValue py .null .null
  | bool (b : Bool) : SameValue py (.bool b) (.bool b)
  | str (s : String) : SameValue py (.str s) (.str s)
  | number {a b : Json} {q : Rat} (left : py.number? a = some q) (right : py.number? b = some q) :
      SameValue py a b
  | infinite {a b : String} (left : py.rational a = none) (right : py.rational b = none)
      (same : py.sameFloat a b = true) : SameValue py (.float a) (.float b)
  | arr {xs ys : List Json} (length : xs.length = ys.length)
      (items : ∀ p ∈ xs.zip ys, SameValue py p.1 p.2) : SameValue py (.arr xs) (.arr ys)
  | obj {left right : List (String × Json)} (other : String × Json → Json)
      (keys : ∀ item ∈ right, (left.lookup item.1).isSome = true)
      (found : ∀ item ∈ left, right.lookup item.1 = some (other item))
      (items : ∀ item ∈ left, SameValue py item.2 (other item)) :
      SameValue py (.obj left) (.obj right)

/-- The elements of two arrays are compared in pairs. -/
theorem jsonEqualAll_iff (xs ys : List Json) :
    jsonEqualAll py xs ys = true ↔ ∀ p ∈ xs.zip ys, jsonEqual py p.1 p.2 = true := by
  induction xs generalizing ys with
  | nil => simp [jsonEqualAll]
  | cons x xs ih =>
      cases ys with
      | nil => simp [jsonEqualAll]
      | cons y ys => simp [jsonEqualAll, ih ys]

/-- Each entry of the left object has an equal one under its key on the right. -/
theorem jsonEqualItems_iff (left right : List (String × Json)) :
    jsonEqualItems py left right = true ↔
      ∀ item ∈ left, ∃ other, right.lookup item.1 = some other ∧
        jsonEqual py item.2 other = true := by
  induction left with
  | nil => simp [jsonEqualItems]
  | cons item left ih =>
      obtain ⟨key, value⟩ := item
      rw [jsonEqualItems, Bool.and_eq_true, ih, List.forall_mem_cons]
      refine and_congr_left fun _ => ?_
      cases right.lookup key with
      | none => simp
      | some other => simp

/-- Equal for the code is equal. -/
theorem SameValue.of_jsonEqual : ∀ {a b : Json}, jsonEqual py a b = true → SameValue py a b
  | .null, .null, _ => .null
  | .bool a, .bool b, h => by
      obtain rfl : a = b := by simpa [jsonEqual] using h
      exact .bool a
  | .str a, .str b, h => by
      obtain rfl : a = b := by simpa [jsonEqual] using h
      exact .str a
  | .int a, .int b, h => by
      obtain rfl : a = b := by simpa [jsonEqual] using h
      exact .number rfl rfl
  | .int a, .float b, h => .number rfl (by simpa [jsonEqual] using h)
  | .float a, .int b, h => .number (by simpa [jsonEqual] using h) rfl
  | .float a, .float b, h => by
      rw [jsonEqual] at h
      split at h
      · rename_i p q hleft hright
        obtain rfl : p = q := by simpa using h
        exact .number hleft hright
      · rename_i hleft hright
        exact .infinite hleft hright h
      · contradiction
  | .arr xs, .arr ys, h => by
      rw [jsonEqual, Bool.and_eq_true, jsonEqualAll_iff] at h
      refine .arr (by simpa using h.1) fun p hp => ?_
      have hlt : sizeOf p.1 < 1 + sizeOf xs := by
        simpa using sizeOf_of_mem_arr (List.of_mem_zip hp).1
      exact of_jsonEqual (h.2 p hp)
  | .obj left, .obj right, h => by
      rw [jsonEqual, Bool.and_eq_true, jsonEqualItems_iff, List.all_eq_true] at h
      have hfound : ∀ item ∈ left, right.lookup item.1 =
          some ((right.lookup item.1).getD .null) := by
        intro item hitem
        obtain ⟨other, hother, -⟩ := h.2 item hitem
        rw [hother, Option.getD_some]
      refine .obj _ h.1 hfound fun item hitem => ?_
      have hlt : sizeOf item.2 < 1 + sizeOf left := by simpa using sizeOf_of_mem_obj hitem
      obtain ⟨other, hother, hsame⟩ := h.2 item hitem
      rw [hother, Option.getD_some]
      exact of_jsonEqual hsame
termination_by a => sizeOf a

/-- What is equal is equal for the code. -/
theorem SameValue.jsonEqual {a b : Json} (h : SameValue py a b) : jsonEqual py a b = true := by
  induction h with
  | null => rfl
  | bool b => simp [Schema.jsonEqual]
  | str s => simp [Schema.jsonEqual]
  | @number a b q left right =>
      cases a with
      | int m =>
          cases b with
          | int n =>
              have hsame : ((m : Int) : Rat) = n := by
                rw [Python.number?_int, Option.some.injEq] at left right
                rw [left, right]
              simpa [Schema.jsonEqual] using hsame
          | float t =>
              rw [Python.number?_int, Option.some.injEq] at left
              rw [Python.number?_float] at right
              simp [Schema.jsonEqual, right, left]
          | _ => contradiction
      | float t =>
          cases b with
          | int n =>
              rw [Python.number?_float] at left
              rw [Python.number?_int, Option.some.injEq] at right
              simp [Schema.jsonEqual, left, right]
          | float u =>
              rw [Python.number?_float] at left right
              simp [Schema.jsonEqual, left, right]
          | _ => contradiction
      | _ => contradiction
  | infinite left right same => simp [Schema.jsonEqual, left, right, same]
  | arr length items ih =>
      rw [Schema.jsonEqual, Bool.and_eq_true, jsonEqualAll_iff]
      exact ⟨by simpa using length, ih⟩
  | obj other keys found items ih =>
      rw [Schema.jsonEqual, Bool.and_eq_true, jsonEqualItems_iff, List.all_eq_true]
      exact ⟨keys, fun item hitem => ⟨_, found item hitem, ih item hitem⟩⟩

/-- **`_json_equal` is the equality of JSON values.** -/
theorem jsonEqual_iff {a b : Json} : jsonEqual py a b = true ↔ SameValue py a b :=
  ⟨.of_jsonEqual, SameValue.jsonEqual⟩

/-! ## the types of values -/

/-- **The seven types of JSON Schema**: a number is an integer if it has no fraction, however
it is written, and a `bool` is no number. -/
inductive HasType (py : Python) : String → Json → Prop where
  | object (items : List (String × Json)) : HasType py "object" (.obj items)
  | array (xs : List Json) : HasType py "array" (.arr xs)
  | string (text : String) : HasType py "string" (.str text)
  | boolean (b : Bool) : HasType py "boolean" (.bool b)
  | null : HasType py "null" .null
  | integer {value : Json} (n : Int) (whole : py.number? value = some (n : Rat)) :
      HasType py "integer" value
  | number {value : Json} (q : Rat) (finite : py.number? value = some q) :
      HasType py "number" value

/-- The table of the code checks the type that the name stands for. -/
theorem checkName_iff {value : Json} {name : String} :
    checkName py value name = true ↔ HasType py name value := by
  constructor
  · intro h
    unfold checkName at h
    split at h
    · exact .object _
    · exact .array _
    · exact .string _
    · exact .boolean _
    · exact .null
    · exact .integer _ rfl
    · exact .number _ rfl
    · rename_i text
      obtain ⟨q, hq, hden⟩ := (Option.any_eq_true _ _).mp h
      have hwhole : (q.num : Rat) = q := Rat.coe_int_num_of_den_eq_one (beq_iff_eq.mp hden)
      exact .integer q.num (by rw [hwhole]; exact hq)
    · rename_i text
      obtain ⟨q, hq⟩ := Option.isSome_iff_exists.mp h
      exact .number q hq
    · contradiction
  · intro h
    cases h with
    | integer n whole =>
        cases value with
        | int m => rfl
        | float text =>
            rw [Python.number?_float] at whole
            simp [checkName, whole]
        | _ => contradiction
    | number q finite =>
        cases value with
        | int m => rfl
        | float text =>
            rw [Python.number?_float] at finite
            simp [checkName, finite]
        | _ => contradiction
    | _ => rfl

/-! ## the meaning of a schema -/

/-- The values a schema lets a value below this node have. -/
abbrev ChildMeaning (schema : Json) := (child : Json) → sizeOf child < sizeOf schema → Json → Prop

/-- What a schema asks of a string. -/
structure MeetsText (py : Python) (schema : Json) (text : String) : Prop where
  minLength : ∀ n, schema.get? "minLength" = some (.int n) → n ≤ text.length
  maxLength : ∀ n, schema.get? "maxLength" = some (.int n) → text.length ≤ n
  pattern : ∀ pattern, schema.get? "pattern" = some (.str pattern) → py.search pattern text = true

/-- What a schema asks of a number. -/
structure MeetsNumber (py : Python) (schema : Json) (q : Rat) : Prop where
  minimum : ∀ bound low, schema.get? "minimum" = some bound → py.number? bound = some low → low ≤ q
  maximum : ∀ bound high, schema.get? "maximum" = some bound → py.number? bound = some high →
    q ≤ high

/-- A name of `properties`. -/
def Named (schema : Json) (name : String) : Prop :=
  ∃ properties, schema.get? "properties" = some (.obj properties) ∧
    (properties.lookup name).isSome = true

/-- What a schema asks of an object. -/
structure MeetsObject (schema : Json) (sat : ChildMeaning schema) (items : List (String × Json)) :
    Prop where
  required : ∀ fields name, schema.get? "required" = some (.arr fields) → .str name ∈ fields →
    (items.lookup name).isSome = true
  properties : ∀ properties (h : schema.get? "properties" = some (.obj properties)) property
    (hmem : property ∈ properties) value, items.lookup property.1 = some value →
      sat property.2 (sizeOf_get?_obj h hmem) value
  closed : schema.get? "additionalProperties" = some (.bool false) →
    ∀ item ∈ items, Named schema item.1
  additional : ∀ child (h : schema.get? "additionalProperties" = some (.obj child)),
    ∀ item ∈ items, ¬ Named schema item.1 → sat (.obj child) (sizeOf_get?_lt h) item.2

/-- What a schema asks of an array. -/
structure MeetsArray (schema : Json) (sat : ChildMeaning schema) (xs : List Json) : Prop where
  minItems : ∀ n, schema.get? "minItems" = some (.int n) → n ≤ xs.length
  maxItems : ∀ n, schema.get? "maxItems" = some (.int n) → xs.length ≤ n
  items : ∀ child (h : schema.get? "items" = some child), ∀ x ∈ xs,
    sat child (sizeOf_get?_lt h) x

/-- **What a schema asks of a value**, `sat` being what the schemas in it mean. -/
structure Meets (py : Python) (schema : Json) (sat : ChildMeaning schema) (value : Json) :
    Prop where
  type : ∀ expected, given schema "type" = some expected →
    ∃ name, .str name ∈ typeMembers expected ∧ HasType py name value
  enum : ∀ members, schema.get? "enum" = some (.arr members) →
    ∃ member ∈ members, SameValue py value member
  oneOf : ∀ branches (h : schema.get? "oneOf" = some (.arr branches)),
    ∃ i, ∃ hi : i < branches.length,
      sat branches[i] (sizeOf_get?_arr h (List.getElem_mem hi)) value ∧
      ∀ j (hj : j < branches.length),
        sat branches[j] (sizeOf_get?_arr h (List.getElem_mem hj)) value → j = i
  text : ∀ text, value = .str text → MeetsText py schema text
  number : ∀ q, py.number? value = some q → MeetsNumber py schema q
  object : ∀ items, value = .obj items → MeetsObject schema sat items
  array : ∀ xs, value = .arr xs → MeetsArray schema sat xs

/-- **A value satisfies a schema.** -/
def Satisfies (py : Python) (schema value : Json) : Prop :=
  Meets py schema (fun child _ value => Satisfies py child value) value
termination_by sizeOf schema

/-- The meaning of a schema, one node unfolded. -/
theorem satisfies_iff {schema value : Json} : Satisfies py schema value ↔
    Meets py schema (fun child _ value => Satisfies py child value) value := by
  rw [Satisfies]

/-! ## schemas without errors -/

/-- What a node without errors looks like, `ok` being said of the schemas in it. -/
structure Formed (py : Python) (schema : Json) (ok : Json → Prop) : Prop where
  object : (itemsOf? schema).isSome = true
  type : ∀ expected, given schema "type" = some expected →
    ∃ names : List String, typeMembers expected = names.map .str
  required : schema.get? "required" = none ∨
    ∃ names : List String, schema.get? "required" = some (.arr (names.map .str))
  properties : schema.get? "properties" = none ∨ ∃ properties,
    schema.get? "properties" = some (.obj properties) ∧ ∀ property ∈ properties, ok property.2
  items : ∀ child, schema.get? "items" = some child → child ≠ .null ∧ ok child
  additional : ∀ child, schema.get? "additionalProperties" = some (.obj child) → ok (.obj child)
  enum : schema.get? "enum" = none ∨ ∃ members, schema.get? "enum" = some (.arr members)
  length : ∀ keyword ∈ ["minLength", "maxLength", "minItems", "maxItems"],
    schema.get? keyword = none ∨ ∃ n, schema.get? keyword = some (.int n)
  bound : ∀ keyword ∈ ["minimum", "maximum"], schema.get? keyword = none ∨
    ∃ bound q, schema.get? keyword = some bound ∧ py.number? bound = some q
  pattern : schema.get? "pattern" = none ∨
    ∃ pattern, schema.get? "pattern" = some (.str pattern)
  oneOf : schema.get? "oneOf" = none ∨ ∃ branches,
    schema.get? "oneOf" = some (.arr branches) ∧ ∀ branch ∈ branches, ok branch

/-- Values that are all strings are the strings they are. -/
theorem exists_names {members : List Json} (h : members.all (fun m => m.asStr?.isSome) = true) :
    ∃ names : List String, members = names.map .str := by
  induction members with
  | nil => exact ⟨[], rfl⟩
  | cons member members ih =>
      rw [List.all_cons, Bool.and_eq_true] at h
      obtain ⟨names, rfl⟩ := ih h.2
      cases member with
      | str name => exact ⟨name :: names, rfl⟩
      | _ => simp [Json.asStr?] at h

/-- A `type` without errors lists strings. -/
theorem type_of_nil {schema : Json} {path : Path} (h : typeErrors py schema path = [])
    {expected : Json} (hgiven : given schema "type" = some expected) :
    ∃ names : List String, typeMembers expected = names.map .str := by
  apply exists_names
  unfold typeErrors at h
  unfold given at hgiven
  split at hgiven
  · contradiction
  · contradiction
  · rename_i held hnull hheld
    cases hgiven
    rw [hheld] at h
    split at h
    · rename_i heq
      cases heq
    · rename_i heq
      cases heq
      contradiction
    · rename_i heq
      cases heq
      split at h
      · contradiction
      · rename_i hall
        simp only [Bool.or_eq_true, not_or, Bool.not_eq_true', Bool.not_eq_false] at hall
        rw [List.all_eq_true] at hall ⊢
        intro member hmember
        have hname := hall.2 member hmember
        unfold isTypeName at hname
        cases hstr : member.asStr? with
        | none => simp [hstr] at hname
        | some name => rfl

/-- A `required` without errors is an array of strings. -/
theorem required_of_nil {schema : Json} {path : Path} (h : requiredErrors schema path = []) :
    schema.get? "required" = none ∨
      ∃ names : List String, schema.get? "required" = some (.arr (names.map .str)) := by
  unfold requiredErrors at h
  split at h
  · exact .inl ‹_›
  · rename_i fields hheld
    split at h
    · rename_i hall
      obtain ⟨names, rfl⟩ := exists_names hall
      exact .inr ⟨names, hheld⟩
    · contradiction
  · contradiction

/-- An `enum` without errors is an array. -/
theorem enum_of_nil {schema : Json} {path : Path} (h : enumErrors py schema path = []) :
    schema.get? "enum" = none ∨ ∃ members, schema.get? "enum" = some (.arr members) := by
  unfold enumErrors at h
  split at h
  · exact .inl ‹_›
  · exact .inr ⟨_, ‹_›⟩
  · contradiction

/-- A bound of a length without errors is an integer. -/
theorem length_of_nil {schema : Json} {path : Path} {keyword : String}
    (h : lengthErrors schema path keyword = []) :
    schema.get? keyword = none ∨ ∃ n, schema.get? keyword = some (.int n) := by
  unfold lengthErrors at h
  split at h
  · exact .inl ‹_›
  · exact .inr ⟨_, ‹_›⟩
  · contradiction

/-- A bound of a number without errors is a finite number. -/
theorem bound_of_nil {schema : Json} {path : Path} {keyword : String}
    (h : boundErrors py schema path keyword = []) : schema.get? keyword = none ∨
      ∃ bound q, schema.get? keyword = some bound ∧ py.number? bound = some q := by
  unfold boundErrors at h
  split at h
  · exact .inl ‹_›
  · rename_i bound hheld
    split at h
    · rename_i hnumber
      obtain ⟨q, hq⟩ := Option.isSome_iff_exists.mp hnumber
      exact .inr ⟨bound, q, hheld, hq⟩
    · contradiction

/-- A `pattern` without errors is a string. -/
theorem pattern_of_nil {schema : Json} {path : Path} (h : patternErrors py schema path = []) :
    schema.get? "pattern" = none ∨
      ∃ pattern, schema.get? "pattern" = some (.str pattern) := by
  unfold patternErrors at h
  split at h
  · exact .inl ‹_›
  · exact .inr ⟨_, ‹_›⟩
  · contradiction

/-- **A schema without errors is formed as the check of a value expects it**, and so is every
schema in it. -/
theorem formed_of_valid {schema : Json} {path : Path}
    (h : validateSchemaAt py schema path = []) :
    Formed py schema fun child => ∃ path, validateSchemaAt py child path = [] := by
  rw [validateSchemaAt] at h
  split at h
  · contradiction
  · rename_i keywords hobject
    simp only [List.append_eq_nil_iff, List.flatMap_eq_nil_iff] at h
    obtain ⟨⟨⟨⟨⟨⟨⟨⟨⟨⟨-, htype⟩, hrequired⟩, hproperties⟩, hitems⟩, hadditional⟩, henum⟩,
      hlength⟩, hbound⟩, hpattern⟩, honeOf⟩ := h
    exact {
      object := by
        rw [hobject]
        rfl
      type := fun expected => type_of_nil htype
      required := required_of_nil hrequired
      properties := by
        split at hproperties
        · exact .inl ‹_›
        · rename_i properties hheld
          rw [List.flatMap_eq_nil_iff] at hproperties
          exact .inr ⟨properties, hheld, fun property hmem =>
            ⟨_, hproperties ⟨property, hmem⟩ (List.mem_attach _ _)⟩⟩
        · contradiction
      items := fun child hheld => by
        split at hitems
        · simp_all
        · rename_i other hother
          rw [hheld] at hother
          cases hother
          refine ⟨fun hnull => ?_, _, hitems⟩
          rw [hnull, validateSchemaAt] at hitems
          contradiction
      additional := fun child hheld => by
        split at hadditional
        · simp_all
        · simp_all
        · rename_i other hother
          rw [hheld] at hother
          cases hother
          exact ⟨_, hadditional⟩
        · contradiction
      enum := enum_of_nil henum
      length := fun keyword hkeyword => length_of_nil (hlength keyword hkeyword)
      bound := fun keyword hkeyword => bound_of_nil (hbound keyword hkeyword)
      pattern := pattern_of_nil hpattern
      oneOf := by
        split at honeOf
        · exact .inl ‹_›
        · rename_i branch branches hheld
          refine .inr ⟨_, hheld, fun child hmem => ?_⟩
          rw [List.flatMap_eq_nil_iff] at honeOf
          obtain ⟨i, hi, hget⟩ := List.getElem_of_mem
            (List.mem_attach (branch :: branches) ⟨child, hmem⟩)
          have hplace : (⟨child, hmem⟩, i) ∈ (branch :: branches).attach.zipIdx := by
            rw [List.mk_mem_zipIdx_iff_getElem?, List.getElem?_eq_getElem hi, hget]
          exact ⟨_, honeOf _ hplace⟩
        · contradiction }

/-! ## the check of a node -/

/-- The check ends, and finds nothing exactly if `P` holds. -/
def Decides {α : Type} (checked : Checked (List α)) (P : Prop) : Prop :=
  ∃ found, checked = .ok found ∧ (found = [] ↔ P)

/-- Where nothing is asked, nothing is found. -/
theorem Decides.nothing {α : Type} {P : Prop} (h : P) :
    Decides (pure [] : Checked (List α)) P := ⟨[], rfl, by simp [h]⟩

/-- One test that finds what is wrong. -/
theorem Decides.ite {α : Type} (wrong : Bool) (found : α) :
    Decides (if wrong then pure [found] else pure [] : Checked (List α)) (wrong = false) := by
  cases wrong with
  | true => exact ⟨[found], rfl, by simp⟩
  | false => exact ⟨[], rfl, by simp⟩

/-- One test that accepts what is right. -/
theorem Decides.test {α : Type} (right : Bool) (found : α) :
    Decides (if right then pure [] else pure [found] : Checked (List α)) (right = true) := by
  cases right with
  | true => exact ⟨[], rfl, by simp⟩
  | false => exact ⟨[found], rfl, by simp⟩

/-- A check decides every statement that is equivalent. -/
theorem Decides.congr {α : Type} {checked : Checked (List α)} {P Q : Prop}
    (h : Decides checked P) (hiff : P ↔ Q) : Decides checked Q := by
  obtain ⟨found, hfound, hP⟩ := h
  exact ⟨found, hfound, hP.trans hiff⟩

/-- Two checks in a row. -/
theorem Decides.append {α : Type} {x y : Checked (List α)} {P Q : Prop} (hx : Decides x P)
    (hy : Decides y Q) :
    Decides (do let a ← x; let b ← y; pure (a ++ b)) (P ∧ Q) := by
  obtain ⟨a, rfl, ha⟩ := hx
  obtain ⟨b, rfl, hb⟩ := hy
  exact ⟨a ++ b, rfl, by rw [List.append_eq_nil_iff, ha, hb]⟩

/-- A check of every element of a list. -/
theorem mapM_decides {α β : Type} {f : α → Checked (List β)} {P : α → Prop} {xs : List α}
    (h : ∀ x ∈ xs, Decides (f x) (P x)) : ∃ results, xs.mapM f = .ok results ∧
      List.Forall₂ (fun x found => found = [] ↔ P x) xs results := by
  induction xs with
  | nil => exact ⟨[], rfl, .nil⟩
  | cons x xs ih =>
      obtain ⟨found, hfound, hx⟩ := h x List.mem_cons_self
      obtain ⟨results, hresults, hall⟩ := ih fun y hy => h y (List.mem_cons_of_mem _ hy)
      refine ⟨found :: results, ?_, .cons hx hall⟩
      rw [List.mapM_cons, hfound, hresults]
      rfl

/-- Nothing is found in any part exactly if each part is right. -/
theorem flatten_eq_nil_iff {α β : Type} {P : α → Prop} {xs : List α} {results : List (List β)}
    (h : List.Forall₂ (fun x found => found = [] ↔ P x) xs results) :
    results.flatten = [] ↔ ∀ x ∈ xs, P x := by
  induction h with
  | nil => simp
  | cons hx _ ih => rw [List.flatten_cons, List.append_eq_nil_iff, hx, ih, List.forall_mem_cons]

/-- The elements of a list are checked one after the other. -/
theorem flatten_decides {α β : Type} {f : α → Checked (List β)} {P : α → Prop} {xs : List α}
    (h : ∀ x ∈ xs, Decides (f x) (P x)) :
    Decides (do let results ← xs.mapM f; pure results.flatten) (∀ x ∈ xs, P x) := by
  obtain ⟨results, hresults, hall⟩ := mapM_decides h
  rw [hresults]
  exact ⟨results.flatten, rfl, flatten_eq_nil_iff hall⟩

/-- No part is free of errors exactly if each is wrong. -/
theorem countP_eq_zero {α β : Type} {P : α → Prop} {xs : List α} {results : List (List β)}
    (h : List.Forall₂ (fun x found => found = [] ↔ P x) xs results) :
    results.countP List.isEmpty = 0 ↔ ∀ x ∈ xs, ¬ P x := by
  induction h with
  | nil => simp
  | @cons x found xs results hx _ ih =>
      rw [List.countP_cons, List.forall_mem_cons, ← ih, ← hx]
      cases found with
      | nil => simp
      | cons => simp

/-- **Exactly one** element passes its check. -/
theorem countP_eq_one {α β : Type} {P : α → Prop} {xs : List α} {results : List (List β)}
    (h : List.Forall₂ (fun x found => found = [] ↔ P x) xs results) :
    results.countP List.isEmpty = 1 ↔ ∃ i, ∃ hi : i < xs.length, P xs[i] ∧
      ∀ j (hj : j < xs.length), P xs[j] → j = i := by
  induction h with
  | nil => simp
  | @cons x found xs results hx hall ih =>
      by_cases hP : P x
      · obtain rfl := hx.mpr hP
        have hzero := countP_eq_zero hall
        constructor
        · intro hone
          simp only [List.countP_cons, List.isEmpty_nil, if_true] at hone
          have hnone := hzero.mp (by omega)
          refine ⟨0, Nat.succ_pos _, hP, fun j hj hPj => ?_⟩
          cases j with
          | zero => rfl
          | succ j => exact absurd hPj (hnone _ (List.getElem_mem _))
        · intro ⟨i, hi, hPi, honly⟩
          have hfirst := honly 0 (Nat.succ_pos _) hP
          have hnone : ∀ y ∈ xs, ¬ P y := by
            intro y hy hPy
            obtain ⟨j, hj, rfl⟩ := List.getElem_of_mem hy
            have hlater := honly (j + 1) (Nat.succ_lt_succ hj) hPy
            omega
          simp [hzero.mpr hnone]
      · have hne : found.isEmpty = false := by
          cases found with
          | nil => exact absurd (hx.mp rfl) hP
          | cons => rfl
        rw [List.countP_cons, hne, if_neg Bool.false_ne_true, Nat.add_zero, ih]
        constructor
        · intro ⟨i, hi, hPi, honly⟩
          refine ⟨i + 1, Nat.succ_lt_succ hi, hPi, fun j hj hPj => ?_⟩
          cases j with
          | zero => exact absurd hPj hP
          | succ j => rw [honly j (Nat.lt_of_succ_lt_succ hj) hPj]
        · intro ⟨i, hi, hPi, honly⟩
          cases i with
          | zero => exact absurd hPi hP
          | succ i =>
              refine ⟨i, Nat.lt_of_succ_lt_succ hi, hPi, fun j hj hPj => ?_⟩
              have hlater := honly (j + 1) (Nat.succ_lt_succ hj) hPj
              omega

/-- A keyword that is absent is not given. -/
theorem given_eq_none {schema : Json} {keyword : String} (h : schema.get? keyword = none) :
    given schema keyword = none := by simp [given, h]

/-- A keyword that holds a value other than `null` is given. -/
theorem given_eq_some {schema held : Json} {keyword : String}
    (h : schema.get? keyword = some held) (hnull : held ≠ .null) :
    given schema keyword = some held := by
  cases held with
  | null => contradiction
  | _ => simp [given, h]

/-! ### the keywords of a node -/

variable {schema value : Json} {ok : Json → Prop}

/-- What is said of everything a keyword holds is said of what it holds. -/
theorem forall_held {β : Type} {keyword : String} {shape : β → Json} {held : β}
    (hinj : Function.Injective shape) (hheld : schema.get? keyword = some (shape held))
    (P : β → Prop) : (∀ other, schema.get? keyword = some (shape other) → P other) ↔ P held := by
  constructor
  · exact fun h => h held hheld
  · intro h other hother
    rw [hheld, Option.some.injEq] at hother
    rw [← hinj hother]
    exact h

/-- Of an absent keyword everything holds. -/
theorem forall_absent {β : Type} {keyword : String} {shape : β → Json}
    (hnone : schema.get? keyword = none) (P : β → Prop) :
    ∀ other, schema.get? keyword = some (shape other) → P other := by
  intro other hother
  rw [hnone] at hother
  contradiction

/-- A list of names is read as it is. -/
theorem mapM_names {f : Json → Checked String} (hf : ∀ name, f (.str name) = .ok name)
    (names : List String) : (names.map Json.str).mapM f = .ok names := by
  induction names with
  | nil => rfl
  | cons name names ih =>
      rw [List.map_cons, List.mapM_cons, ih, hf]
      rfl

/-- The check of a type that lists names tries each of them. -/
theorem checkType_eq {expected : Json} {names : List String}
    (h : typeMembers expected = names.map .str) :
    checkType py value expected = .ok (names.any (checkName py value)) := by
  cases expected with
  | arr members =>
      obtain rfl : members = names.map .str := h
      rw [checkType, mapM_names fun name => rfl]
      rfl
  | str name =>
      cases names with
      | nil => contradiction
      | cons first names =>
          simp only [typeMembers, List.map_cons, List.cons.injEq, Json.str.injEq] at h
          obtain ⟨rfl, hnil⟩ := h
          obtain rfl := List.map_eq_nil_iff.mp hnil.symm
          simp [checkType, pure, Except.pure]
  | _ => cases names <;> simp [typeMembers] at h

/-- The check of `type` finds nothing exactly if the value has one of the types. -/
theorem typeViolations_decides (hformed : Formed py schema ok) :
    Decides (typeViolations py value schema) (∀ expected, given schema "type" = some expected →
      ∃ name, .str name ∈ typeMembers expected ∧ HasType py name value) := by
  unfold typeViolations
  cases hgiven : given schema "type" with
  | none => exact .nothing fun expected h => by contradiction
  | some expected =>
      obtain ⟨names, hnames⟩ := hformed.type expected hgiven
      have hmembers : names.any (checkName py value) = true ↔
          ∃ name, .str name ∈ typeMembers expected ∧ HasType py name value := by
        simp [hnames, checkName_iff]
      dsimp only
      rw [checkType_eq hnames]
      refine (Decides.test (names.any (checkName py value)) _).congr (hmembers.trans ?_)
      simp

/-- The check of `enum` finds nothing exactly if the value equals a member. -/
theorem enumViolations_decides (hformed : Formed py schema ok) :
    Decides (enumViolations py value schema) (∀ members,
      schema.get? "enum" = some (.arr members) →
        ∃ member ∈ members, SameValue py value member) := by
  unfold enumViolations
  obtain hnone | ⟨members, hheld⟩ := hformed.enum
  · rw [given_eq_none hnone]
    exact .nothing (forall_absent hnone _)
  · rw [given_eq_some hheld (by simp)]
    refine (Decides.test (members.any (jsonEqual py value)) _).congr ?_
    rw [forall_held (fun _ _ => Json.arr.inj) hheld
      (fun members => ∃ member ∈ members, SameValue py value member)]
    simp only [List.any_eq_true, jsonEqual_iff]

/-- A bound of a length is checked against the integer it holds. -/
theorem countViolations_decides {keyword : String} {wrong : Int → Bool}
    {violation : Int → Violation}
    (h : schema.get? keyword = none ∨ ∃ n, schema.get? keyword = some (.int n)) :
    Decides (countViolations schema keyword wrong violation)
      (∀ n, schema.get? keyword = some (.int n) → wrong n = false) := by
  unfold countViolations
  obtain hnone | ⟨n, hheld⟩ := h
  · rw [given_eq_none hnone]
    exact .nothing (forall_absent hnone _)
  · rw [given_eq_some hheld (by simp)]
    exact (Decides.ite (wrong n) (violation n)).congr
      (forall_held (fun _ _ => Json.int.inj) hheld (fun n => wrong n = false)).symm

/-- A bound of a number is checked against the number it holds. -/
theorem boundViolations_decides {keyword : String} {wrong : Rat → Bool}
    {violation : String → Violation} (h : schema.get? keyword = none ∨
      ∃ bound q, schema.get? keyword = some bound ∧ py.number? bound = some q) :
    Decides (boundViolations py schema keyword wrong violation)
      (∀ bound, schema.get? keyword = some bound → ∀ q, py.number? bound = some q →
        wrong q = false) := by
  unfold boundViolations
  obtain hnone | ⟨bound, q, hheld, hq⟩ := h
  · rw [given_eq_none hnone]
    exact .nothing (@forall_absent schema Json keyword id hnone _)
  · rw [given_eq_some hheld (fun hnull => by simp [hnull, Python.number?] at hq)]
    dsimp only
    rw [hq]
    have hbound := @forall_held schema Json keyword id bound Function.injective_id hheld
      (fun bound => ∀ q, py.number? bound = some q → wrong q = false)
    refine (Decides.ite (wrong q) (violation (py.str bound))).congr (Iff.trans ?_ hbound.symm)
    simp [hq]

/-- The check of `pattern` finds nothing exactly if the text matches. -/
theorem patternViolations_decides (hformed : Formed py schema ok) (text : String) :
    Decides (patternViolations py text schema) (∀ pattern,
      schema.get? "pattern" = some (.str pattern) → py.search pattern text = true) := by
  unfold patternViolations
  obtain hnone | ⟨pattern, hheld⟩ := hformed.pattern
  · rw [given_eq_none hnone]
    exact .nothing (forall_absent hnone _)
  · rw [given_eq_some hheld (by simp)]
    exact (Decides.test (py.search pattern text) _).congr
      (forall_held (fun _ _ => Json.str.inj) hheld (fun pattern =>
        py.search pattern text = true)).symm

/-- The checks of a string decide what is asked of a text. -/
theorem stringViolations_decides (hformed : Formed py schema ok) :
    Decides (stringViolations py value schema) (∀ text, value = .str text →
      MeetsText py schema text) := by
  cases value with
  | str text =>
      obtain ⟨short, hshort, hmin⟩ := @countViolations_decides schema
        "minLength" (fun n => text.length < n) .tooShort (hformed.length "minLength" (by simp))
      obtain ⟨long, hlong, hmax⟩ := @countViolations_decides schema
        "maxLength" (fun n => text.length > n) .tooLong (hformed.length "maxLength" (by simp))
      obtain ⟨unmatched, hunmatched, hpattern⟩ := patternViolations_decides hformed text
      refine ⟨short ++ long ++ unmatched, ?_, ?_⟩
      · simp only [stringViolations, hshort, hlong, hunmatched]
        rfl
      · rw [List.append_eq_nil_iff, List.append_eq_nil_iff, hmin, hmax, hpattern]
        simp only [decide_eq_false_iff_not, Int.not_lt, gt_iff_lt]
        constructor
        · intro ⟨⟨hmin, hmax⟩, hpattern⟩ other hother
          cases hother
          exact ⟨hmin, hmax, hpattern⟩
        · intro h
          obtain ⟨hmin, hmax, hpattern⟩ := h text rfl
          exact ⟨⟨hmin, hmax⟩, hpattern⟩
  | _ => exact .nothing fun text h => by contradiction

/-- The checks of a number decide what is asked of it. -/
theorem numberViolations_decides (hformed : Formed py schema ok) :
    Decides (numberViolations py value schema) (∀ q, py.number? value = some q →
      MeetsNumber py schema q) := by
  unfold numberViolations
  cases hvalue : py.number? value with
  | none => exact .nothing fun q h => by contradiction
  | some q =>
      obtain ⟨below, hbelow, hmin⟩ := @boundViolations_decides py schema
        "minimum" (fun bound => q < bound) .below (hformed.bound "minimum" (by simp))
      obtain ⟨above, habove, hmax⟩ := @boundViolations_decides py schema
        "maximum" (fun bound => q > bound) .above (hformed.bound "maximum" (by simp))
      refine ⟨below ++ above, ?_, ?_⟩
      · simp only [hbelow, habove]
        rfl
      · rw [List.append_eq_nil_iff, hmin, hmax]
        simp only [decide_eq_false_iff_not, not_lt, gt_iff_lt]
        constructor
        · intro ⟨hmin, hmax⟩ other hother
          cases hother
          exact ⟨fun bound low hheld => hmin bound hheld low,
            fun bound high hheld => hmax bound hheld high⟩
        · intro h
          obtain ⟨hmin, hmax⟩ := h q rfl
          exact ⟨fun bound hheld low => hmin bound low hheld,
            fun bound hheld high => hmax bound high hheld⟩

/-! ### the schemas in a node -/

/-- The check of the schemas in a node is right. -/
def Right (ok : Json → Prop) (check : ChildCheck schema) (sat : ChildMeaning schema) : Prop :=
  ∀ child h, ok child → ∀ value path, Decides (check child h value path) (sat child h value)

variable {check : ChildCheck schema} {sat : ChildMeaning schema}

/-- The check of `oneOf` finds nothing exactly if one branch accepts the value, and no other
does. -/
theorem branchViolations_decides (hformed : Formed py schema ok) (hright : Right ok check sat)
    (path : Path) : Decides (branchViolations value schema path check)
      (∀ branches (h : schema.get? "oneOf" = some (.arr branches)),
        ∃ i, ∃ hi : i < branches.length,
          sat branches[i] (sizeOf_get?_arr h (List.getElem_mem hi)) value ∧
          ∀ j (hj : j < branches.length),
            sat branches[j] (sizeOf_get?_arr h (List.getElem_mem hj)) value → j = i) := by
  unfold branchViolations
  obtain hnone | ⟨branches, hheld, hok⟩ := hformed.oneOf
  · split <;> rename_i h
    · exact .nothing fun branches h => by simp [hnone] at h
    all_goals simp [hnone] at h
  · split
    · rename_i h
      simp [hheld] at h
    · rename_i h
      simp [hheld] at h
    · rename_i other hother
      obtain rfl : branches = other := by simpa [hheld] using hother
      obtain ⟨results, hresults, hall⟩ := @mapM_decides {b // b ∈ branches} _
        (fun branch => check branch.1 (sizeOf_get?_arr hheld branch.2) value path)
        (fun branch => sat branch.1 (sizeOf_get?_arr hheld branch.2) value) branches.attach
        fun branch _ => hright branch.1 _ (hok _ branch.2) value path
      have hone := countP_eq_one hall
      simp only [List.length_attach, List.getElem_attach] at hone
      rw [hresults]
      refine ⟨_, rfl, ?_⟩
      have hnil : (if results.countP List.isEmpty = 1 then []
          else [Violation.branches (results.countP List.isEmpty)]) = [] ↔
            results.countP List.isEmpty = 1 := by simp
      rw [hnil, hone]
      constructor
      · intro h others hothers
        obtain rfl : branches = others := by simpa [hheld] using hothers
        exact h
      · exact fun h => h branches hheld
    · rename_i hnot hother
      simp only [hheld, Option.some.injEq] at hother
      exact absurd hother.symm (hnot branches)

/-- The check of `required` finds nothing exactly if every name is there. -/
theorem missingErrors_decides (hformed : Formed py schema ok) (items : List (String × Json))
    (path : Path) : Decides (missingErrors items schema path) (∀ fields,
      schema.get? "required" = some (.arr fields) → ∀ name, .str name ∈ fields →
        (items.lookup name).isSome = true) := by
  unfold missingErrors
  obtain hnone | ⟨names, hheld⟩ := hformed.required
  · rw [hnone]
    exact .nothing fun fields h => by contradiction
  · rw [hheld]
    dsimp only
    rw [mapM_names fun name => rfl]
    refine ⟨_, rfl, ?_⟩
    have hfields := @forall_held schema _ "required" Json.arr (names.map .str)
      (fun _ _ => Json.arr.inj) hheld fun fields =>
        ∀ name, .str name ∈ fields → (items.lookup name).isSome = true
    rw [hheld] at hfields
    rw [hfields, List.map_eq_nil_iff, List.filter_eq_nil_iff]
    simp [Option.isSome_iff_ne_none]

/-- The check of `properties` finds nothing exactly if each value that is there satisfies
the schema of its name. -/
theorem propertyErrors_decides (hformed : Formed py schema ok) (hright : Right ok check sat)
    (items : List (String × Json)) (path : Path) :
    Decides (propertyErrors items schema path check)
      (∀ properties (h : schema.get? "properties" = some (.obj properties)) property
        (hmem : property ∈ properties) value, items.lookup property.1 = some value →
          sat property.2 (sizeOf_get?_obj h hmem) value) := by
  unfold propertyErrors
  obtain hnone | ⟨properties, hheld, hok⟩ := hformed.properties
  · split <;> rename_i h
    · exact .nothing fun properties h => by simp [hnone] at h
    all_goals simp [hnone] at h
  · split
    · rename_i h
      simp [hheld] at h
    · rename_i other hother
      obtain rfl : properties = other := by simpa [hheld] using hother
      refine Decides.congr (@flatten_decides {p // p ∈ properties} _ _
        (fun property => ∀ value, items.lookup property.1.1 = some value →
          sat property.1.2 (sizeOf_get?_obj hheld property.2) value) properties.attach ?_) ?_
      · intro property _
        cases hlookup : items.lookup property.1.1 with
        | none => exact .nothing fun value h => by contradiction
        | some value =>
            have hchild := hright property.1.2 (sizeOf_get?_obj hheld property.2)
              (hok _ property.2) value (path ++ [.key property.1.1])
            exact hchild.congr (by simp)
      constructor
      · intro h others hothers property hmem
        obtain rfl : properties = others := by simpa [hheld] using hothers
        exact h ⟨property, hmem⟩ (List.mem_attach _ _)
      · exact fun h property _ => h properties hheld property.1 property.2
    · rename_i hnot hother
      simp only [hheld, Option.some.injEq] at hother
      exact absurd hother.symm (hnot properties)

/-- A formed schema has a table of properties, and it lists the names. -/
theorem propertiesOf_eq (hformed : Formed py schema ok) : ∃ properties,
    propertiesOf schema = .ok properties ∧
      ∀ name, Named schema name ↔ (properties.lookup name).isSome = true := by
  unfold propertiesOf Named
  obtain hnone | ⟨properties, hheld, -⟩ := hformed.properties
  · rw [hnone]
    exact ⟨[], rfl, by simp⟩
  · rw [hheld]
    exact ⟨properties, rfl, by simp⟩

/-- The additional entries are those whose name is not listed. -/
theorem mem_additionalItems {items properties : List (String × Json)} {item : String × Json} :
    item ∈ additionalItems items properties ↔
      item ∈ items ∧ ¬ (properties.lookup item.1).isSome = true := by
  rw [additionalItems, List.mem_filter, Bool.not_eq_true', Bool.not_eq_true]

/-- The check of `additionalProperties` decides what is asked of the additional entries. -/
theorem additionalErrors_decides (hformed : Formed py schema ok) (hright : Right ok check sat)
    (items : List (String × Json)) (path : Path) :
    Decides (additionalErrors items schema path check)
      ((schema.get? "additionalProperties" = some (.bool false) →
          ∀ item ∈ items, Named schema item.1) ∧
        ∀ child (h : schema.get? "additionalProperties" = some (.obj child)),
          ∀ item ∈ items, ¬ Named schema item.1 →
            sat (.obj child) (sizeOf_get?_lt h) item.2) := by
  obtain ⟨properties, hproperties, hnamed⟩ := propertiesOf_eq hformed
  unfold additionalErrors
  rw [hproperties]
  simp only [hnamed, bind, Except.bind]
  split
  · rename_i hheld
    refine ⟨_, rfl, ?_⟩
    rw [List.map_eq_nil_iff, List.eq_nil_iff_forall_not_mem]
    simp only [mem_additionalItems, hheld]
    simp
  · rename_i child hheld
    have hall := @flatten_decides _ _
      (fun item : String × Json =>
        check (.obj child) (sizeOf_get?_lt hheld) item.2 (path ++ [.key item.1]))
      (fun item => sat (.obj child) (sizeOf_get?_lt hheld) item.2)
      (additionalItems items properties)
      fun item _ => hright _ _ (hformed.additional child hheld) _ _
    refine hall.congr ?_
    simp only [mem_additionalItems]
    constructor
    · intro h
      refine ⟨fun hfalse => by simp [hheld] at hfalse, fun other hother item hitem hnot => ?_⟩
      obtain rfl : child = other := by simpa [hheld] using hother
      exact h item ⟨hitem, hnot⟩
    · exact fun h item hitem => h.2 child hheld item hitem.1 hitem.2
  · rename_i hnotFalse hnotObj
    exact .nothing ⟨fun h => absurd h hnotFalse, fun child h => absurd h (hnotObj child)⟩

/-- The checks of an object decide what is asked of it. -/
theorem objectErrors_decides (hformed : Formed py schema ok) (hright : Right ok check sat)
    (items : List (String × Json)) (path : Path) :
    Decides (objectErrors items schema path check) (MeetsObject schema sat items) := by
  obtain ⟨missing, hmissing, hrequired⟩ := missingErrors_decides hformed items path
  obtain ⟨ofProperties, hofProperties, hproperties⟩ :=
    propertyErrors_decides hformed hright items path
  obtain ⟨ofOthers, hofOthers, hothers⟩ := additionalErrors_decides hformed hright items path
  refine ⟨missing ++ ofProperties ++ ofOthers, ?_, ?_⟩
  · simp only [objectErrors, hmissing, hofProperties, hofOthers]
    rfl
  · rw [List.append_eq_nil_iff, List.append_eq_nil_iff, hrequired, hproperties, hothers]
    constructor
    · intro ⟨⟨hrequired, hproperties⟩, hclosed, hadditional⟩
      exact ⟨fun fields name hheld => hrequired fields hheld name, hproperties, hclosed,
        hadditional⟩
    · intro h
      exact ⟨⟨fun fields hheld name => h.required fields name hheld, h.properties⟩, h.closed,
        h.additional⟩

/-- The check of `items` finds nothing exactly if each element satisfies the schema. -/
theorem itemErrors_decides (hformed : Formed py schema ok) (hright : Right ok check sat)
    (xs : List Json) (path : Path) : Decides (itemErrors xs schema path check)
      (∀ child (h : schema.get? "items" = some child), ∀ x ∈ xs,
        sat child (sizeOf_get?_lt h) x) := by
  unfold itemErrors
  split
  · rename_i hnone
    exact .nothing fun child h => by simp [hnone] at h
  · rename_i hnull
    exact absurd rfl (hformed.items _ hnull).1
  · rename_i child _ hheld
    have hall := @flatten_decides _ _
      (fun item : Json × Nat =>
        check child (sizeOf_get?_lt hheld) item.1 (path ++ [.index item.2]))
      (fun item => sat child (sizeOf_get?_lt hheld) item.1) xs.zipIdx
      fun item _ => hright _ _ (hformed.items child hheld).2 _ _
    refine hall.congr ?_
    constructor
    · intro h other hother x hx
      obtain rfl : child = other := by simpa [hheld] using hother
      obtain ⟨i, hi, rfl⟩ := List.getElem_of_mem hx
      exact h (xs[i], i) (by rw [List.mk_mem_zipIdx_iff_getElem?, List.getElem?_eq_getElem hi])
    · exact fun h item hitem => h child hheld item.1 (List.fst_mem_of_mem_zipIdx hitem)

/-- The checks of an array decide what is asked of it. -/
theorem arrayErrors_decides (hformed : Formed py schema ok) (hright : Right ok check sat)
    (xs : List Json) (path : Path) :
    Decides (arrayErrors xs schema path check) (MeetsArray schema sat xs) := by
  obtain ⟨few, hfew, hmin⟩ := @countViolations_decides schema
    "minItems" (fun n => xs.length < n) .tooFewItems (hformed.length "minItems" (by simp))
  obtain ⟨many, hmany, hmax⟩ := @countViolations_decides schema
    "maxItems" (fun n => xs.length > n) .tooManyItems (hformed.length "maxItems" (by simp))
  obtain ⟨ofItems, hofItems, hitems⟩ := itemErrors_decides hformed hright xs path
  refine ⟨atNode path (few ++ many) ++ ofItems, ?_, ?_⟩
  · simp only [arrayErrors, itemCountViolations, hfew, hmany, hofItems]
    rfl
  · rw [List.append_eq_nil_iff, atNode, List.map_eq_nil_iff, List.append_eq_nil_iff, hmin, hmax,
      hitems]
    simp only [decide_eq_false_iff_not, Int.not_lt, gt_iff_lt]
    constructor
    · intro ⟨⟨hmin, hmax⟩, hitems⟩
      exact ⟨hmin, hmax, hitems⟩
    · intro h
      exact ⟨⟨h.minItems, h.maxItems⟩, h.items⟩

/-- The checks below a node are those of an object or of an array. -/
theorem childErrors_decides (hformed : Formed py schema ok) (hright : Right ok check sat)
    (path : Path) : Decides (childErrors value schema path check)
      ((∀ items, value = .obj items → MeetsObject schema sat items) ∧
        ∀ xs, value = .arr xs → MeetsArray schema sat xs) := by
  cases value with
  | obj items => exact (objectErrors_decides hformed hright items path).congr (by simp)
  | arr xs => exact (arrayErrors_decides hformed hright xs path).congr (by simp)
  | _ => exact .nothing ⟨fun items h => by contradiction, fun xs h => by contradiction⟩

/-- **The check of one node** ends and finds nothing exactly if the value meets what the node
asks, where the checks of the schemas in it are right. -/
theorem nodeErrors_decides (hformed : Formed py schema ok) (hright : Right ok check sat)
    (path : Path) :
    Decides (nodeErrors py value schema path check) (Meets py schema sat value) := by
  have hobject : (itemsOf? schema).isNone = false := by simp [hformed.object]
  obtain ⟨mismatch, hmismatch, htype⟩ := @typeViolations_decides py schema value ok hformed
  obtain ⟨ofEnum, hofEnum, henum⟩ := @enumViolations_decides py schema value ok hformed
  obtain ⟨ofBranches, hofBranches, honeOf⟩ :=
    @branchViolations_decides py schema value ok check sat hformed hright path
  obtain ⟨ofString, hofString, htext⟩ := @stringViolations_decides py schema value ok hformed
  obtain ⟨ofNumber, hofNumber, hnumber⟩ := @numberViolations_decides py schema value ok hformed
  obtain ⟨ofChildren, hofChildren, hchildren⟩ :=
    @childErrors_decides py schema value ok check sat hformed hright path
  simp only [nodeErrors, hobject, hmismatch, hofEnum, hofBranches, hofString, hofNumber,
    hofChildren]
  by_cases hnil : mismatch = []
  · have hparts : atNode path (ofEnum ++ ofBranches ++ ofString ++ ofNumber) ++ ofChildren = [] ↔
        Meets py schema sat value := by
      rw [List.append_eq_nil_iff, atNode, List.map_eq_nil_iff, List.append_eq_nil_iff,
        List.append_eq_nil_iff, List.append_eq_nil_iff, henum, honeOf, htext, hnumber, hchildren]
      constructor
      · intro ⟨⟨⟨⟨henum, honeOf⟩, htext⟩, hnumber⟩, hobject, harray⟩
        exact ⟨htype.mp hnil, henum, honeOf, htext, hnumber, hobject, harray⟩
      · intro h
        exact ⟨⟨⟨⟨h.enum, h.oneOf⟩, h.text⟩, h.number⟩, h.object, h.array⟩
    refine ⟨_, ?_, hparts⟩
    simp [hnil, bind, Except.bind, pure, Except.pure]
  · refine ⟨atNode path mismatch, ?_, iff_of_false (by simp [atNode, hnil]) fun h => ?_⟩
    · simp [hnil, bind, Except.bind, pure, Except.pure]
    · exact hnil (htype.mpr h.type)

/-- **The check of a value is right** for every schema without errors. -/
theorem validateAt_decides {schema : Json} (hvalid : ∃ path, validateSchemaAt py schema path = [])
    (value : Json) (path : Path) :
    Decides (validateAt py value schema path) (Satisfies py schema value) := by
  obtain ⟨root, hroot⟩ := hvalid
  rw [validateAt]
  refine (nodeErrors_decides (formed_of_valid hroot) ?_ path).congr satisfies_iff.symm
  exact fun child _ hchild value path => validateAt_decides hchild value path
termination_by sizeOf schema

/-- **An empty list of errors is the meaning of the schema.**  A schema with errors is refused
with exactly these; for any other schema the check of a value raises nothing, whatever the
value, and it finds nothing wrong exactly if the value satisfies the schema. -/
theorem validate_decides (py : Python) (schema value : Json) :
    (validateSchema py schema ≠ [] →
      validate py value schema = .ok ((validateSchema py schema).map SchemaError.text)) ∧
    (validateSchema py schema = [] →
      ∃ errors, validate py value schema = .ok errors ∧
        (errors = [] ↔ Satisfies py schema value)) := by
  constructor
  · intro h
    rw [validate, if_pos h]
    rfl
  · intro h
    obtain ⟨errors, herrors, hiff⟩ := validateAt_decides ⟨[], h⟩ value []
    rw [validate, if_neg (not_not_intro h), herrors]
    exact ⟨errors.map ValueError.text, rfl, by rw [List.map_eq_nil_iff, hiff]⟩

end OpenCollab.Schema
