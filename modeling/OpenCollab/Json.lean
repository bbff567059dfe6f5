import Mathlib.Data.List.Basic

/-!
# OpenCollab.Json

The JSON values the program handles: what `json.loads` returns, what a
message carries in its `content`, `response_items` and `provider_state`, and
what the session store reads back from disk.  A Python dict is the list of its
items in insertion order; `get` reads the *first* item with the key and `set`
overwrites it in place (or appends a new item), as `dict.__getitem__` and
`dict.__setitem__` do.

The readers below are named after the Python expression they stand for
(`isinstance(x, str)`, truthiness, `.get`), so that a definition built from
them can be checked against the source line by line.
-/

namespace OpenCollab

/-- A JSON value as Python holds it.  A number that is not an integer is kept
as its text: no function of the program computes with one. -/
inductive Json where
  | null
  | bool (b : Bool)
  | int (n : Int)
  | float (text : String)
  | str (s : String)
  | arr (xs : List Json)
  | obj (kvs : List (String × Json))
deriving Repr, Inhabited

namespace Json

/-! ## equality -/

mutual

/-- Equality of JSON values is decided by walking both trees. -/
def decEq : (a b : Json) → Decidable (a = b)
  | .null, .null => .isTrue rfl
  | .bool a, .bool b => decidable_of_iff (a = b) (by simp)
  | .int a, .int b => decidable_of_iff (a = b) (by simp)
  | .float a, .float b => decidable_of_iff (a = b) (by simp)
  | .str a, .str b => decidable_of_iff (a = b) (by simp)
  | .arr a, .arr b =>
      have := decEqList a b
      decidable_of_iff (a = b) (by simp)
  | .obj a, .obj b =>
      have := decEqItems a b
      decidable_of_iff (a = b) (by simp)
  | .null, .bool _ | .null, .int _ | .null, .float _ | .null, .str _ | .null, .arr _
  | .null, .obj _ | .bool _, .null | .bool _, .int _ | .bool _, .float _ | .bool _, .str _
  | .bool _, .arr _ | .bool _, .obj _ | .int _, .null | .int _, .bool _ | .int _, .float _
  | .int _, .str _ | .int _, .arr _ | .int _, .obj _ | .float _, .null | .float _, .bool _
  | .float _, .int _ | .float _, .str _ | .float _, .arr _ | .float _, .obj _ | .str _, .null
  | .str _, .bool _ | .str _, .int _ | .str _, .float _ | .str _, .arr _ | .str _, .obj _
  | .arr _, .null | .arr _, .bool _ | .arr _, .int _ | .arr _, .float _ | .arr _, .str _
  | .arr _, .obj _ | .obj _, .null | .obj _, .bool _ | .obj _, .int _ | .obj _, .float _
  | .obj _, .str _ | .obj _, .arr _ => .isFalse (by simp)

/-- Equality of arrays, element by element. -/
def decEqList : (a b : List Json) → Decidable (a = b)
  | [], [] => .isTrue rfl
  | x :: xs, y :: ys =>
      have := decEq x y
      have := decEqList xs ys
      decidable_of_iff (x = y ∧ xs = ys) (by simp)
  | [], _ :: _ | _ :: _, [] => .isFalse (by simp)

/-- Equality of dict items, key and value by value, in order. -/
def decEqItems : (a b : List (String × Json)) → Decidable (a = b)
  | [], [] => .isTrue rfl
  | (k, x) :: xs, (l, y) :: ys =>
      have := decEq x y
      have := decEqItems xs ys
      decidable_of_iff (k = l ∧ x = y ∧ xs = ys) (by simp [and_assoc])
  | [], _ :: _ | _ :: _, [] => .isFalse (by simp)

end

instance : DecidableEq Json := decEq

/-! ## readers -/

/-- `value.get(key)` on a dict; every other value has no items. -/
def get? (value : Json) (key : String) : Option Json :=
  match value with
  | .obj kvs => kvs.lookup key
  | _ => none

/-- `value.get(key)` with Python's default `None`. -/
def get (value : Json) (key : String) : Json := (value.get? key).getD .null

/-- `isinstance(value, str)`, with the string. -/
def asStr? : Json → Option String
  | .str s => some s
  | _ => none

/-- `isinstance(value, int)`, with the number: a Python `bool` is an `int`. -/
def asInt? : Json → Option Int
  | .int n => some n
  | .bool b => some (if b then 1 else 0)
  | _ => none

/-- `isinstance(value, list)`, with the elements. -/
def asArr? : Json → Option (List Json)
  | .arr xs => some xs
  | _ => none

/-- `isinstance(value, dict)`. -/
def isObj : Json → Bool
  | .obj _ => true
  | _ => false

/-- Python truthiness: `None`, `False`, `0`, `""`, `[]` and `{}` are false. -/
def truthy : Json → Bool
  | .null => false
  | .bool b => b
  | .int n => n != 0
  | .float text => !(text == "0.0" || text == "-0.0")
  | .str s => s != ""
  | .arr xs => !xs.isEmpty
  | .obj kvs => !kvs.isEmpty

/-! ## dict updates -/

/-- `items[key] = value`: the first item with the key is overwritten in place,
a new key goes to the end. -/
def setItem (key : String) (value : Json) : List (String × Json) → List (String × Json)
  | [] => [(key, value)]
  | (k, v) :: rest => if k = key then (k, value) :: rest else (k, v) :: setItem key value rest

/-- `{**value, key: x}`: a new dict with one item replaced.  Only dicts are
ever updated so; any other value is returned as it is. -/
def set (value : Json) (key : String) (x : Json) : Json :=
  match value with
  | .obj kvs => .obj (setItem key x kvs)
  | other => other

/-- One step of a dict lookup, as a test on the key. -/
theorem lookup_cons_ite (key k : String) (v : Json) (kvs : List (String × Json)) :
    ((k, v) :: kvs).lookup key = if key = k then some v else kvs.lookup key := by
  by_cases h : key = k
  · simp [h]
  · have hb : (key == k) = false := beq_false_of_ne h
    simp [List.lookup_cons, hb, h]

@[simp] theorem lookup_setItem_self (key : String) (value : Json) (kvs : List (String × Json)) :
    (setItem key value kvs).lookup key = some value := by
  induction kvs with
  | nil => simp [setItem]
  | cons kv kvs ih =>
      obtain ⟨k, v⟩ := kv
      by_cases h : k = key
      · simp [setItem, h]
      · rw [setItem, if_neg h, lookup_cons_ite, if_neg (Ne.symm h), ih]

theorem lookup_setItem_ne (value : Json) (kvs : List (String × Json)) (h : key' ≠ key) :
    (setItem key value kvs).lookup key' = kvs.lookup key' := by
  induction kvs with
  | nil => rw [setItem, lookup_cons_ite, if_neg h]
  | cons kv kvs ih =>
      obtain ⟨k, v⟩ := kv
      by_cases hk : k = key
      · subst hk
        rw [setItem, if_pos rfl, lookup_cons_ite, lookup_cons_ite, if_neg h, if_neg h]
      · rw [setItem, if_neg hk, lookup_cons_ite, lookup_cons_ite, ih]

/-- Overwriting an item twice keeps the second value. -/
theorem setItem_setItem (key : String) (x y : Json) (kvs : List (String × Json)) :
    setItem key y (setItem key x kvs) = setItem key y kvs := by
  induction kvs with
  | nil => simp [setItem]
  | cons kv kvs ih =>
      obtain ⟨k, v⟩ := kv
      by_cases h : k = key
      · simp [setItem, h]
      · simp [setItem, h, ih]

theorem set_set (value : Json) (key : String) (x y : Json) :
    (value.set key x).set key y = value.set key y := by
  cases value <;> simp [set, setItem_setItem]

/-- Setting one item leaves every other key of the dict as it was. -/
theorem get?_set_ne (value x : Json) (h : key' ≠ key) :
    (value.set key x).get? key' = value.get? key' := by
  cases value <;> simp [set, get?, lookup_setItem_ne, h]

end Json

end OpenCollab
