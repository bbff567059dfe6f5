import Mathlib.Algebra.Order.Ring.Rat
import OpenCollab.Json
import OpenCollab.Text

/-!
# OpenCollab.Schema.Validate

`schema_validate.py`: the check of a schema and the check of a value against a
schema, for the keywords that are sent to a provider.

* `validateSchemaAt` — what is wrong with a schema, node by node;
* `validateAt` — what is wrong with a value, node by node;
* `validate` — the check of the schema, and then that of the value.

A path is kept as the list of its steps, an error as what it says; `text` is the
string the program makes of them.  A keyword of a shape that the first check
refuses makes the second one `Malformed`: `_validate` would raise, or read the
keyword otherwise, and it is never called so.
-/

namespace OpenCollab.Schema

/-- What is left to Python. -/
structure Python where
  /-- A float as the number it is; `none` for an infinity and for NaN. -/
  rational : String → Option Rat
  /-- `==` of two floats none of which is finite. -/
  sameFloat : String → String → Bool
  /-- `re.compile`: the text of its `re.error`. -/
  compile : String → Option String
  /-- `re.search(pattern, text) is not None`. -/
  search : String → String → Bool
  /-- `repr` of a value. -/
  repr : Json → String
  /-- `str` of a value. -/
  str : Json → String

variable (py : Python)

/-! ## paths -/

/-- A step of a path: a name, or a place in an array. -/
inductive Step where
  | key (name : String)
  | index (i : Nat)
deriving DecidableEq, Repr

/-- The way from the root to a node. -/
abbrev Path := List Step

def Step.text : Step → String
  | .key name => s!".{name}"
  | .index i => s!"[{i}]"

/-- A path as it is printed. -/
def pathText (root : String) (path : Path) : String := root ++ String.join (path.map Step.text)

/-! ## values -/

/-- `isinstance(value, dict)`, with the items. -/
def itemsOf? : Json → Option (List (String × Json))
  | .obj items => some items
  | _ => none

/-- The value as a number: an integer or a finite float, but no `bool`. -/
def Python.number? : Json → Option Rat
  | .int n => some n
  | .float text => py.rational text
  | _ => none

@[simp] theorem Python.number?_int (n : Int) : py.number? (.int n) = some (n : Rat) := rfl

@[simp] theorem Python.number?_float (text : String) :
    py.number? (.float text) = py.rational text := rfl

/-- `_is_number`. -/
def isNumber (value : Json) : Bool := (py.number? value).isSome

/-- `_type_name`. -/
def typeName : Json → String
  | .null => "null"
  | .bool _ => "boolean"
  | .int _ => "integer"
  | .float _ => "number"
  | .str _ => "string"
  | .arr _ => "array"
  | .obj _ => "object"

/-- The keys of `_TYPE_CHECKS`. -/
def typeNames : List String :=
  ["object", "array", "string", "boolean", "integer", "number", "null"]

/-- `_TYPE_CHECKS[name](value)`; a name that is not in the table accepts nothing. -/
def checkName (value : Json) (name : String) : Bool :=
  match name, value with
  | "object", .obj _ | "array", .arr _ | "string", .str _ | "boolean", .bool _
  | "null", .null | "integer", .int _ | "number", .int _ => true
  | "integer", .float text => (py.rational text).any fun q => q.den == 1
  | "number", .float text => (py.rational text).isSome
  | _, _ => false

mutual

/-- `_json_equal`: a `bool` equals no number, and `1` equals `1.0`. -/
def jsonEqual : Json → Json → Bool
  | .null, .null => true
  | .bool a, .bool b => a == b
  | .str a, .str b => a == b
  | .int a, .int b => a == b
  | .int a, .float b => py.rational b == some (a : Rat)
  | .float a, .int b => py.rational a == some (b : Rat)
  | .float a, .float b =>
      match py.rational a, py.rational b with
      | some p, some q => p == q
      | none, none => py.sameFloat a b
      | _, _ => false
  | .arr xs, .arr ys => xs.length == ys.length && jsonEqualAll xs ys
  | .obj left, .obj right =>
      right.all (fun item => (left.lookup item.1).isSome) && jsonEqualItems left right
  | _, _ => false

/-- `all(_json_equal(a, b) for a, b in zip(left, right))`. -/
def jsonEqualAll : List Json → List Json → Bool
  | x :: xs, y :: ys => jsonEqual x y && jsonEqualAll xs ys
  | _, _ => true

/-- The keys of the left dict are in the right one, with equal values. -/
def jsonEqualItems : List (String × Json) → List (String × Json) → Bool
  | (key, value) :: left, right =>
      (match right.lookup key with
        | some other => jsonEqual value other
        | none => false) && jsonEqualItems left right
  | [], _ => true

end

mutual

/-- `json.dumps(value, allow_nan=False)` raises nothing: no float in it is infinite or NaN. -/
def dumpable : Json → Bool
  | .float text => (py.rational text).isSome
  | .arr xs => dumpableAll xs
  | .obj kvs => dumpableItems kvs
  | _ => true

def dumpableAll : List Json → Bool
  | [] => true
  | x :: xs => dumpable x && dumpableAll xs

def dumpableItems : List (String × Json) → Bool
  | [] => true
  | (_, x) :: kvs => dumpable x && dumpableItems kvs

end

/-! ## sizes

Both checks go from a schema to the schemas it holds. -/

/-- An element is smaller than its array. -/
theorem sizeOf_of_mem_arr {xs : List Json} {x : Json} (h : x ∈ xs) :
    sizeOf x < sizeOf (Json.arr xs) := by
  have hlt := List.sizeOf_lt_of_mem h
  simp only [Json.arr.sizeOf_spec]
  omega

/-- A value is smaller than its object. -/
theorem sizeOf_of_mem_obj {kvs : List (String × Json)} {item : String × Json} (h : item ∈ kvs) :
    sizeOf item.2 < sizeOf (Json.obj kvs) := by
  have hlt := List.sizeOf_lt_of_mem h
  obtain ⟨key, value⟩ := item
  simp only [Json.obj.sizeOf_spec, Prod.mk.sizeOf_spec] at hlt ⊢
  omega

/-- What is found under a key is an entry. -/
theorem mem_of_lookup {kvs : List (String × Json)} {key : String} {value : Json}
    (h : kvs.lookup key = some value) : (key, value) ∈ kvs := by
  induction kvs with
  | nil => contradiction
  | cons item kvs ih =>
      obtain ⟨k, v⟩ := item
      rw [Json.lookup_cons_ite] at h
      split at h
      · rename_i heq
        cases h
        rw [heq]
        exact List.mem_cons_self
      · exact List.mem_cons_of_mem _ (ih h)

/-- What a keyword holds is smaller than the schema. -/
theorem sizeOf_get?_lt {schema value : Json} {key : String} (h : schema.get? key = some value) :
    sizeOf value < sizeOf schema := by
  unfold Json.get? at h
  split at h
  · exact sizeOf_of_mem_obj (mem_of_lookup h)
  · contradiction

/-- The entries of a nested object are smaller than the schema. -/
theorem sizeOf_get?_items {schema : Json} {children : List (String × Json)} {key : String}
    (h : schema.get? key = some (.obj children)) : 1 + sizeOf children < sizeOf schema := by
  have hlt := sizeOf_get?_lt h
  rwa [Json.obj.sizeOf_spec] at hlt

/-- An element of an array keyword is smaller than the schema. -/
theorem sizeOf_get?_arr {schema child : Json} {children : List Json} {key : String}
    (h : schema.get? key = some (.arr children)) (hchild : child ∈ children) :
    sizeOf child < sizeOf schema :=
  Nat.lt_trans (sizeOf_of_mem_arr hchild) (sizeOf_get?_lt h)

/-- A value in an object keyword is smaller than the schema. -/
theorem sizeOf_get?_obj {schema : Json} {children : List (String × Json)} {key : String}
    {child : String × Json} (h : schema.get? key = some (.obj children))
    (hchild : child ∈ children) : sizeOf child.2 < sizeOf schema :=
  Nat.lt_trans (sizeOf_of_mem_obj hchild) (sizeOf_get?_lt h)

/-! ## the check of a schema -/

/-- What is wrong with a node of a schema. -/
inductive Problem where
  | notAnObject
  | unsupportedKeyword
  | nestedDialect
  | emptyDialect
  | unsupportedType (shown : String)
  | notNames
  | notProperties
  | notAdditional
  | noValues
  | badValues
  | notNonnegative
  | notFinite
  | notText
  | badPattern (message : String)
  | noBranches
deriving DecidableEq, Repr

def Problem.text : Problem → String
  | .notAnObject => "schema node must be an object"
  | .unsupportedKeyword => "unsupported schema keyword"
  | .nestedDialect => "dialect declaration is only allowed at the root"
  | .emptyDialect => "dialect declaration must be a non-empty string"
  | .unsupportedType shown => s!"unsupported schema type {shown}"
  | .notNames => "must be an array of property names"
  | .notProperties => "must be an object"
  | .notAdditional => "must be a boolean or schema object"
  | .noValues => "must be a non-empty array of JSON values"
  | .badValues => "entries must be valid JSON values"
  | .notNonnegative => "must be a non-negative integer"
  | .notFinite => "must be a finite number"
  | .notText => "must be a string"
  | .badPattern message => s!"invalid regular expression: {message}"
  | .noBranches => "must be a non-empty array of schema objects"

structure SchemaError where
  path : Path
  what : Problem
deriving DecidableEq, Repr

def SchemaError.text (error : SchemaError) : String :=
  pathText "$schema" error.path ++ ": " ++ error.what.text

/-- `_SUPPORTED_KEYWORDS`. -/
def supportedKeywords : List String :=
  ["additionalProperties", "enum", "items", "maxItems", "maxLength", "maximum", "minItems",
    "minLength", "minimum", "oneOf", "pattern", "properties", "required", "type",
    "default", "deprecated", "description", "examples", "format", "readOnly", "title",
    "writeOnly", "$schema"]

/-- The loop over the keywords of a node.  Only the root has the empty path. -/
def keywordErrors (path : Path) (item : String × Json) : List SchemaError :=
  if item.1 ∉ supportedKeywords then [⟨path ++ [.key item.1], .unsupportedKeyword⟩]
  else if item.1 = "$schema" then
    if path ≠ [] then [⟨path ++ [.key "$schema"], .nestedDialect⟩]
    else if item.2.asStr?.all isBlank then [⟨path ++ [.key "$schema"], .emptyDialect⟩]
    else []
  else []

/-- The names `type` gives: those of a list, or the one it is. -/
def typeMembers : Json → List Json
  | .arr members => members
  | member => [member]

/-- A member of `type` is the name of a type. -/
def isTypeName (member : Json) : Bool := member.asStr?.any fun name => name ∈ typeNames

def typeErrors (schema : Json) (path : Path) : List SchemaError :=
  match schema.get? "type" with
  | none | some .null => []
  | some expected =>
      if (typeMembers expected).isEmpty || !(typeMembers expected).all isTypeName then
        [⟨path ++ [.key "type"], .unsupportedType (py.repr expected)⟩]
      else []

def requiredErrors (schema : Json) (path : Path) : List SchemaError :=
  match schema.get? "required" with
  | none => []
  | some (.arr fields) =>
      if fields.all fun field => field.asStr?.isSome then []
      else [⟨path ++ [.key "required"], .notNames⟩]
  | some _ => [⟨path ++ [.key "required"], .notNames⟩]

def enumErrors (schema : Json) (path : Path) : List SchemaError :=
  match schema.get? "enum" with
  | none => []
  | some (.arr (member :: members)) =>
      if dumpableAll py (member :: members) then []
      else [⟨path ++ [.key "enum"], .badValues⟩]
  | some _ => [⟨path ++ [.key "enum"], .noValues⟩]

/-- `_validate_nonnegative_integer`, where the keyword is given. -/
def lengthErrors (schema : Json) (path : Path) (keyword : String) : List SchemaError :=
  match schema.get? keyword with
  | none => []
  | some (.int n) => if n < 0 then [⟨path ++ [.key keyword], .notNonnegative⟩] else []
  | some _ => [⟨path ++ [.key keyword], .notNonnegative⟩]

def boundErrors (schema : Json) (path : Path) (keyword : String) : List SchemaError :=
  match schema.get? keyword with
  | none => []
  | some bound => if isNumber py bound then [] else [⟨path ++ [.key keyword], .notFinite⟩]

def patternErrors (schema : Json) (path : Path) : List SchemaError :=
  match schema.get? "pattern" with
  | none => []
  | some (.str pattern) =>
      match py.compile pattern with
      | none => []
      | some message => [⟨path ++ [.key "pattern"], .badPattern message⟩]
  | some _ => [⟨path ++ [.key "pattern"], .notText⟩]

/-- `_validate_schema`. -/
def validateSchemaAt (schema : Json) (path : Path) : List SchemaError :=
  match itemsOf? schema with
  | none => [⟨path, .notAnObject⟩]
  | some keywords =>
      keywords.flatMap (keywordErrors path) ++ typeErrors py schema path ++
      requiredErrors schema path ++
      (match h : schema.get? "properties" with
        | none => []
        | some (.obj properties) => properties.attach.flatMap fun child =>
            have := sizeOf_get?_obj h child.2
            validateSchemaAt child.1.2 (path ++ [.key "properties", .key child.1.1])
        | some _ => [⟨path ++ [.key "properties"], .notProperties⟩]) ++
      (match h : schema.get? "items" with
        | none => []
        | some child =>
            have := sizeOf_get?_lt h
            validateSchemaAt child (path ++ [.key "items"])) ++
      (match h : schema.get? "additionalProperties" with
        | none | some (.bool _) => []
        | some (.obj child) =>
            have := sizeOf_get?_items h
            validateSchemaAt (.obj child) (path ++ [.key "additionalProperties"])
        | some _ => [⟨path ++ [.key "additionalProperties"], .notAdditional⟩]) ++
      enumErrors py schema path ++
      ["minLength", "maxLength", "minItems", "maxItems"].flatMap (lengthErrors schema path) ++
      ["minimum", "maximum"].flatMap (boundErrors py schema path) ++
      patternErrors py schema path ++
      (match h : schema.get? "oneOf" with
        | none => []
        | some (.arr (branch :: branches)) =>
            (branch :: branches).attach.zipIdx.flatMap fun child =>
              have := sizeOf_get?_arr h child.1.2
              validateSchemaAt child.1.1 (path ++ [.key "oneOf", .index child.2])
        | some _ => [⟨path ++ [.key "oneOf"], .noBranches⟩])
termination_by sizeOf schema

/-- `validate_schema`. -/
def validateSchema (schema : Json) : List SchemaError := validateSchemaAt py schema []

/-! ## the check of a value -/

/-- What is wrong with a node of a value. -/
inductive Violation where
  | typeMismatch (expected got : String)
  | notInEnum (value members : String)
  | branches (matched : Nat)
  | missing
  | unexpected
  | tooFewItems (n : Int)
  | tooManyItems (n : Int)
  | tooShort (n : Int)
  | tooLong (n : Int)
  | noMatch (pattern : String)
  | below (bound : String)
  | above (bound : String)
deriving DecidableEq, Repr

def Violation.text : Violation → String
  | .typeMismatch expected got => s!"expected type '{expected}', got '{got}'"
  | .notInEnum value members => s!"value {value} not in enum {members}"
  | .branches matched => s!"must match exactly one schema in oneOf (matched {matched})"
  | .missing => "required property is missing"
  | .unexpected => "unexpected property"
  | .tooFewItems n => s!"must contain at least {n} items"
  | .tooManyItems n => s!"must contain at most {n} items"
  | .tooShort n => s!"must have length >= {n}"
  | .tooLong n => s!"must have length <= {n}"
  | .noMatch pattern => s!"must match pattern {pattern}"
  | .below bound => s!"must be >= {bound}"
  | .above bound => s!"must be <= {bound}"

structure ValueError where
  path : Path
  what : Violation
deriving DecidableEq, Repr

def ValueError.text (error : ValueError) : String :=
  pathText "$" error.path ++ ": " ++ error.what.text

/-- A keyword has a shape that the check of the schema refuses. -/
structure Malformed where
  keyword : String
deriving DecidableEq, Repr

abbrev Checked := Except Malformed

/-- `_check_type`, on the name of a type or on a list of such names. -/
def checkType (value : Json) : Json → Checked Bool
  | .str name => pure (checkName py value name)
  | .arr members => do
      let names ← members.mapM fun member =>
        match member with
        | .str name => pure name
        | _ => throw ⟨"type"⟩
      pure (names.any (checkName py value))
  | _ => throw ⟨"type"⟩

/-- A keyword that is given and is not `None`. -/
def given (schema : Json) (keyword : String) : Option Json :=
  match schema.get? keyword with
  | none | some .null => none
  | some held => some held

def typeViolations (value schema : Json) : Checked (List Violation) := do
  match given schema "type" with
  | none => pure []
  | some expected =>
      if ← checkType py value expected then pure []
      else pure [.typeMismatch (py.str expected) (typeName value)]

def enumViolations (value schema : Json) : Checked (List Violation) :=
  match given schema "enum" with
  | none => pure []
  | some (.arr members) =>
      if members.any (jsonEqual py value) then pure []
      else pure [.notInEnum (py.repr value) (py.repr (.arr members))]
  | some _ => throw ⟨"enum"⟩

/-- A comparison with an integer a keyword gives. -/
def countViolations (schema : Json) (keyword : String) (wrong : Int → Bool)
    (violation : Int → Violation) : Checked (List Violation) :=
  match given schema keyword with
  | none => pure []
  | some (.int n) => if wrong n then pure [violation n] else pure []
  | some _ => throw ⟨keyword⟩

/-- A comparison with a number a keyword gives. -/
def boundViolations (schema : Json) (keyword : String) (wrong : Rat → Bool)
    (violation : String → Violation) : Checked (List Violation) :=
  match given schema keyword with
  | none => pure []
  | some bound =>
      match py.number? bound with
      | some q => if wrong q then pure [violation (py.str bound)] else pure []
      | none => throw ⟨keyword⟩

def patternViolations (text : String) (schema : Json) : Checked (List Violation) :=
  match given schema "pattern" with
  | none => pure []
  | some (.str pattern) =>
      if py.search pattern text then pure [] else pure [.noMatch (py.repr (.str pattern))]
  | some _ => throw ⟨"pattern"⟩

/-- `_validate_string`, on a string. -/
def stringViolations (value schema : Json) : Checked (List Violation) := do
  match value with
  | .str text =>
      let short ← countViolations schema "minLength" (fun n => text.length < n) .tooShort
      let long ← countViolations schema "maxLength" (fun n => text.length > n) .tooLong
      let unmatched ← patternViolations py text schema
      pure (short ++ long ++ unmatched)
  | _ => pure []

/-- `_validate_number`, on a number. -/
def numberViolations (value schema : Json) : Checked (List Violation) := do
  match py.number? value with
  | some q =>
      let below ← boundViolations py schema "minimum" (fun bound => q < bound) .below
      let above ← boundViolations py schema "maximum" (fun bound => q > bound) .above
      pure (below ++ above)
  | none => pure []

/-- The lengths `_validate_array` looks at. -/
def itemCountViolations (xs : List Json) (schema : Json) : Checked (List Violation) := do
  let few ← countViolations schema "minItems" (fun n => xs.length < n) .tooFewItems
  let many ← countViolations schema "maxItems" (fun n => xs.length > n) .tooManyItems
  pure (few ++ many)

/-- The fields `_validate_object` misses. -/
def missingErrors (items : List (String × Json)) (schema : Json) (path : Path) :
    Checked (List ValueError) :=
  match schema.get? "required" with
  | none => pure []
  | some (.arr fields) => do
      let names ← fields.mapM fun field =>
        match field with
        | .str name => pure name
        | _ => throw ⟨"required"⟩
      pure ((names.filter fun name => !(items.lookup name).isSome).map fun name =>
        ⟨path ++ [.key name], .missing⟩)
  | some _ => throw ⟨"required"⟩

/-- `schema.get("properties", {})`. -/
def propertiesOf (schema : Json) : Checked (List (String × Json)) :=
  match schema.get? "properties" with
  | none => pure []
  | some (.obj properties) => pure properties
  | some _ => throw ⟨"properties"⟩

/-- The items of an object that `properties` does not name. -/
def additionalItems (items properties : List (String × Json)) : List (String × Json) :=
  items.filter fun item => !(properties.lookup item.1).isSome

/-- The errors of one node. -/
def atNode (path : Path) (violations : List Violation) : List ValueError :=
  violations.map fun what => ⟨path, what⟩

/-- The check of a value against a schema that the schema holds. -/
abbrev ChildCheck (schema : Json) :=
  (child : Json) → sizeOf child < sizeOf schema → Json → Path → Checked (List ValueError)

/-- `oneOf`: the errors of the branches are only counted. -/
def branchViolations (value schema : Json) (path : Path) (check : ChildCheck schema) :
    Checked (List Violation) :=
  match h : schema.get? "oneOf" with
  | none | some .null => pure []
  | some (.arr branches) => do
      let results ← branches.attach.mapM fun branch =>
        check branch.1 (sizeOf_get?_arr h branch.2) value path
      let matched := results.countP List.isEmpty
      pure (if matched = 1 then [] else [.branches matched])
  | some _ => throw ⟨"oneOf"⟩

/-- The loop of `_validate_object` over `properties`. -/
def propertyErrors (items : List (String × Json)) (schema : Json) (path : Path)
    (check : ChildCheck schema) : Checked (List ValueError) :=
  match h : schema.get? "properties" with
  | none => pure []
  | some (.obj properties) => do
      let results ← properties.attach.mapM fun property =>
        match items.lookup property.1.1 with
        | some value => check property.1.2 (sizeOf_get?_obj h property.2) value
            (path ++ [.key property.1.1])
        | none => pure []
      pure results.flatten
  | some _ => throw ⟨"properties"⟩

/-- The loop of `_validate_object` over the other items. -/
def additionalErrors (items : List (String × Json)) (schema : Json) (path : Path)
    (check : ChildCheck schema) : Checked (List ValueError) := do
  let properties ← propertiesOf schema
  match h : schema.get? "additionalProperties" with
  | some (.bool false) =>
      pure ((additionalItems items properties).map fun item =>
        ⟨path ++ [.key item.1], .unexpected⟩)
  | some (.obj child) => do
      let results ← (additionalItems items properties).mapM fun item =>
        check (.obj child) (sizeOf_get?_lt h) item.2 (path ++ [.key item.1])
      pure results.flatten
  | _ => pure []

/-- `_validate_object`. -/
def objectErrors (items : List (String × Json)) (schema : Json) (path : Path)
    (check : ChildCheck schema) : Checked (List ValueError) := do
  let missing ← missingErrors items schema path
  let ofProperties ← propertyErrors items schema path check
  let ofOthers ← additionalErrors items schema path check
  pure (missing ++ ofProperties ++ ofOthers)

/-- The loop of `_validate_array` over the items. -/
def itemErrors (xs : List Json) (schema : Json) (path : Path) (check : ChildCheck schema) :
    Checked (List ValueError) :=
  match h : schema.get? "items" with
  | none | some .null => pure []
  | some child => do
      let results ← xs.zipIdx.mapM fun item =>
        check child (sizeOf_get?_lt h) item.1 (path ++ [.index item.2])
      pure results.flatten

/-- `_validate_array`. -/
def arrayErrors (xs : List Json) (schema : Json) (path : Path) (check : ChildCheck schema) :
    Checked (List ValueError) := do
  let counts ← itemCountViolations xs schema
  let ofItems ← itemErrors xs schema path check
  pure (atNode path counts ++ ofItems)

/-- What the value holds is checked according to what the value is, not to what `type` says. -/
def childErrors (value schema : Json) (path : Path) (check : ChildCheck schema) :
    Checked (List ValueError) :=
  match value with
  | .obj items => objectErrors items schema path check
  | .arr xs => arrayErrors xs schema path check
  | _ => pure []

/-- `_validate`, one node: after a wrong type nothing else is looked at. -/
def nodeErrors (value schema : Json) (path : Path) (check : ChildCheck schema) :
    Checked (List ValueError) := do
  if (itemsOf? schema).isNone then throw ⟨"$schema"⟩
  let mismatch ← typeViolations py value schema
  if mismatch ≠ [] then
    pure (atNode path mismatch)
  else
    let ofEnum ← enumViolations py value schema
    let ofBranches ← branchViolations value schema path check
    let ofString ← stringViolations py value schema
    let ofNumber ← numberViolations py value schema
    let ofChildren ← childErrors value schema path check
    pure (atNode path (ofEnum ++ ofBranches ++ ofString ++ ofNumber) ++ ofChildren)

/-- `_validate`. -/
def validateAt (value schema : Json) (path : Path) : Checked (List ValueError) :=
  nodeErrors py value schema path fun child _ value path => validateAt value child path
termination_by sizeOf schema

/-- `validate`. -/
def validate (value schema : Json) : Checked (List String) :=
  if validateSchema py schema ≠ [] then pure ((validateSchema py schema).map SchemaError.text)
  else do
    let errors ← validateAt py value schema []
    pure (errors.map ValueError.text)

end OpenCollab.Schema
