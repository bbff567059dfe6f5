import Mathlib.Data.List.Sort
import OpenCollab.Message

/-!
# OpenCollab.Session.Pending

The pending-event table of a session: one row per call of a tool batch that
cannot be answered at once, keyed by `tool_call_id`.  A row is added once,
filled once, and the complete table is drained into the history as one block of
tool results in call order.

`PendingEventTable` carries the fact that makes it a table (no two rows share an
id), so every operation below keeps it by construction.

* `ids_add`, `ids_update` — what the operations do to the ids;
* `orderedResults_perm`, `orderedResults_tools` — the drained block answers every
  row, in the order the rows record.
-/

namespace OpenCollab

/-! ## rows -/

inductive RowKind where
  | immediate
  | childAgent
deriving DecidableEq, Repr, Inhabited

inductive RowStatus where
  | pending
  | done
  | failed
deriving DecidableEq, Repr, Inhabited

/-- One pending call.  `ref`, `startedAt` and `finishedAt` are carried as the
JSON they are persisted as (`None`: `null`). -/
structure PendingRow where
  toolCallId : String
  kind : RowKind
  order : Int
  ref : Json := .null
  status : RowStatus := .pending
  result : Option String := none
  error : Option String := none
  startedAt : Json := .null
  finishedAt : Json := .null
deriving DecidableEq, Repr, Inhabited

namespace PendingRow

/-- The row waits for its result. -/
def isPending (row : PendingRow) : Bool := row.status = .pending

/-- The tool message a drained row becomes. -/
def toMessage (row : PendingRow) : Message := .toolResult row.toolCallId (row.result.getD "")

@[simp] theorem toMessage_toolCallId (row : PendingRow) :
    row.toMessage.toolCallId = some row.toolCallId := rfl

@[simp] theorem toMessage_isTool (row : PendingRow) : row.toMessage.isTool = true := rfl

end PendingRow

/-! ## the table -/

/-- The rows in insertion order, one per id. -/
structure PendingEventTable where
  rows : List PendingRow
  distinct : (rows.map PendingRow.toolCallId).Nodup
deriving DecidableEq

namespace PendingEventTable

/-- The ids that have a row. -/
def ids (table : PendingEventTable) : List String := table.rows.map PendingRow.toolCallId

/-- The ids with the place their answer takes in the batch. -/
def keys (table : PendingEventTable) : List (String × Int) :=
  table.rows.map fun row => (row.toolCallId, row.order)

/-- The table of a session that waits for nothing. -/
def empty : PendingEventTable := ⟨[], List.nodup_nil⟩

instance : Inhabited PendingEventTable := ⟨empty⟩

/-- `rows.get(tool_call_id)`. -/
def get? (table : PendingEventTable) (id : String) : Option PendingRow :=
  table.rows.find? (·.toolCallId = id)

/-- `add(row)`: `none` is the `PendingRowError` of a duplicate id. -/
def add (table : PendingEventTable) (row : PendingRow) : Option PendingEventTable :=
  if h : row.toolCallId ∈ table.ids then none
  else some ⟨table.rows ++ [row], by
    rw [List.map_append, List.map_singleton]
    exact List.nodup_append.mpr ⟨table.distinct, List.nodup_singleton _, by
      rintro a ha b hb rfl
      exact h (List.mem_singleton.mp hb ▸ ha)⟩⟩

/-- `rows[id] = replace(row, …)`; the id of a row never changes. -/
def update (table : PendingEventTable) (id : String) (f : PendingRow → PendingRow) :
    PendingEventTable where
  rows := table.rows.map fun row =>
    if row.toolCallId = id then { f row with toolCallId := row.toolCallId } else row
  distinct := by
    rw [List.map_map]
    have h : PendingRow.toolCallId ∘ (fun row : PendingRow =>
        if row.toolCallId = id then { f row with toolCallId := row.toolCallId } else row)
        = PendingRow.toolCallId := by
      funext row
      simp only [Function.comp_apply]
      split <;> rfl
    rw [h]
    exact table.distinct

/-- `fill(id, …)`: `none` is the `PendingRowError` of an unknown id or of a row
that has its result already. -/
def fill (table : PendingEventTable) (id : String) (status : RowStatus) (result : String)
    (error : Option String := none) (finishedAt : Json := .null) : Option PendingEventTable :=
  match table.get? id with
  | none => none
  | some row =>
      if row.isPending then
        some (table.update id fun row =>
          { row with status, result := some result, error, finishedAt })
      else none

def isEmpty (table : PendingEventTable) : Bool := table.rows.isEmpty

/-- Every call of the batch has its result. -/
def isComplete (table : PendingEventTable) : Bool :=
  !table.rows.isEmpty && table.rows.all fun row => !row.isPending

/-- The rows by `order` (Python's `sorted` is stable). -/
def sortedRows (table : PendingEventTable) : List PendingRow :=
  table.rows.insertionSort fun a b => a.order ≤ b.order

/-- The tool-result block of the batch. -/
def orderedResults (table : PendingEventTable) : List Message :=
  table.sortedRows.map PendingRow.toMessage

/-! ## what the operations do to the ids -/

variable {table table' : PendingEventTable} {row : PendingRow} {id id' : String}

@[simp] theorem ids_empty : empty.ids = [] := rfl

@[simp] theorem isEmpty_empty : empty.isEmpty = true := rfl

theorem isEmpty_iff : table.isEmpty = true ↔ table = empty := by
  obtain ⟨rows, hd⟩ := table
  cases rows <;> simp [isEmpty, empty]

theorem isEmpty_of_ids (h : table.ids = []) : table.isEmpty = true := by
  simpa [isEmpty, ids] using h

theorem add_rows (h : table.add row = some table') : table'.rows = table.rows ++ [row] := by
  unfold add at h
  split at h
  · contradiction
  · rw [← Option.some.inj h]

/-- A new row is the last one, and its id was free. -/
theorem ids_add (h : table.add row = some table') :
    table'.ids = table.ids ++ [row.toolCallId] ∧ row.toolCallId ∉ table.ids := by
  refine ⟨by rw [ids, add_rows h, List.map_append]; rfl, ?_⟩
  unfold add at h
  split at h
  · contradiction
  · assumption

theorem add_eq_some (h : row.toolCallId ∉ table.ids) : ∃ table', table.add row = some table' := by
  simp [add, h]

theorem mem_ids_of_get? (h : table.get? id = some row) : id ∈ table.ids := by
  have hid : row.toolCallId = id := by simpa using List.find?_some h
  exact hid ▸ List.mem_map_of_mem (List.mem_of_find?_eq_some h)

@[simp] theorem ids_update (f : PendingRow → PendingRow) : (table.update id f).ids = table.ids := by
  rw [ids, ids, update, List.map_map]
  refine List.map_congr_left fun row _ => ?_
  simp only [Function.comp_apply]
  split <;> rfl

theorem keys_update {f : PendingRow → PendingRow} (hf : ∀ row, (f row).order = row.order) :
    (table.update id f).keys = table.keys := by
  rw [keys, keys, update, List.map_map]
  refine List.map_congr_left fun row _ => ?_
  simp only [Function.comp_apply]
  split
  · simp [hf]
  · rfl

theorem keys_add (h : table.add row = some table') :
    table'.keys = table.keys ++ [(row.toolCallId, row.order)] := by
  rw [keys, add_rows h, List.map_append]
  rfl

@[simp] theorem keys_fst (table : PendingEventTable) : table.keys.map Prod.fst = table.ids := by
  rw [keys, ids, List.map_map]
  rfl

theorem keys_nodup (table : PendingEventTable) : table.keys.Nodup :=
  .of_map Prod.fst (table.keys_fst ▸ table.distinct)

theorem keys_fill {status : RowStatus} {result : String} {error : Option String} {finished : Json}
    (h : table.fill id status result error finished = some table') : table'.keys = table.keys := by
  unfold fill at h
  split at h
  · contradiction
  · split at h
    · rw [← Option.some.inj h]
      exact keys_update fun _ => rfl
    · contradiction

theorem ids_fill {status : RowStatus} {result : String} {error : Option String} {finished : Json}
    (h : table.fill id status result error finished = some table') : table'.ids = table.ids := by
  unfold fill at h
  split at h
  · contradiction
  · split at h
    · rw [← Option.some.inj h, ids_update]
    · contradiction

/-! ## the drained block -/

theorem sortedRows_perm (table : PendingEventTable) : table.sortedRows.Perm table.rows :=
  List.perm_insertionSort _ _

/-- The block answers exactly the rows. -/
theorem orderedResults_perm (table : PendingEventTable) :
    (table.orderedResults.map Message.toolCallId).Perm (table.ids.map some) := by
  have h := (table.sortedRows_perm).map fun row => some row.toolCallId
  simpa [orderedResults, ids, List.map_map, Function.comp_def] using h

theorem orderedResults_tools (table : PendingEventTable) :
    ∀ m ∈ table.orderedResults, m.isTool = true := by
  intro m hm
  obtain ⟨row, _, rfl⟩ := List.mem_map.mp hm
  rfl

end PendingEventTable

end OpenCollab
