import Mathlib
import ServiceEngine.Proofs.Store.Journal
import ServiceEngine.Proofs.Value.Reflexive

/-!
# Queries, and what they see of a write

Searching, counting and deleting walk the rows of a table each in its own way. They give one view of the
table: the rows that pass a filter, in order (`Store.queries_agree`).

A filter compares the values that are asked for with the values that are stored, and what is stored is a
detached copy of what was given. So a new record is found by the fields it was made from just if no handle
stands in them (`Store.created_found_iff`); with each handle replaced by the copy that is stored it is
found always.
-/

namespace ServiceEngine.Store

/-! ## One view of a table -/

/-- A search for one row gives the first that a search for all would give. -/
theorem find_eq_ok_iff {s : Store} {entity : String} {filter : Filter} {h : Handle} :
    s.find entity filter = .ok h ↔ (s.findAll entity (some filter)).head? = some h := by
  rw [find, findAll, List.head?_filter]
  cases (s.rows entity).find? (s.passes filter) <;> simp

theorem find_eq_error_iff {s : Store} {entity : String} {filter : Filter} :
    s.find entity filter = .error ⟨entity, filter.describe s.heap⟩ ↔
      s.findAll entity (some filter) = [] := by
  rw [find, findAll, ← List.head?_eq_none_iff, List.head?_filter]
  cases (s.rows entity).find? (s.passes filter) <;> simp

/-- A delete tells how many rows it removes. -/
theorem fst_delete (s : Store) (entity : String) (target : Target) :
    (s.delete entity target).1 = (s.removed entity target).length := by
  unfold delete
  cases htable : s.tables.get? entity with
  | none =>
    -- Without a table there are no rows, and none is removed.
    have hrows : s.rows entity = [] := by simp [rows, table, htable]
    cases target <;> simp [removed, row?, findAll, hrows]
  | some t => rfl

theorem fst_delete_matching (s : Store) (entity : String) (filter : Filter) :
    (s.delete entity (.matching filter)).1 = (s.findAll entity (some filter)).length :=
  fst_delete s entity (.matching filter)

/-- A delete does not touch records, so a row passes a filter after it just if it did before. -/
theorem passes_delete (s : Store) (entity : String) (target : Target) :
    (s.delete entity target).2.passes = s.passes := by
  unfold passes
  rw [(delete_spec s entity target).1]

/-- **Queries and deletes agree**, for every filter, be it by fields or a condition of the host. The rows
that a search finds are the rows that pass, in order; a search for one row gives the first of them, and
fails just if there is none; the count is the number of rows. A delete removes the rows that a search
would find and tells their number; the other rows are left in their order, nothing passes any more, and
the same delete again removes nothing. It touches no other table and no record. -/
theorem queries_agree (s : Store) (entity : String) (filter : Filter) :
    let found := s.findAll entity (some filter)
    let after := (s.delete entity (.matching filter)).2
    found = (s.findAll entity none).filter (fun h => filter.holds s.heap (s.heap.get h)) ∧
      (∀ h, s.find entity filter = .ok h ↔ found.head? = some h) ∧
      (s.find entity filter = .error ⟨entity, filter.describe s.heap⟩ ↔ found = []) ∧
      s.count entity = (s.findAll entity none).length ∧
      (s.delete entity (.matching filter)).1 = found.length ∧
      after.findAll entity none =
        (s.findAll entity none).filter (fun h => !filter.holds s.heap (s.heap.get h)) ∧
      after.findAll entity (some filter) = [] ∧
      (after.delete entity (.matching filter)).1 = 0 ∧
      (∀ other, other ≠ entity → after.findAll other none = s.findAll other none) ∧
      ∀ h, after.heap.get h = s.heap.get h := by
  intro found after
  -- The rows that are left are those that do not pass, and they pass no more than before.
  have hleft : after.rows entity = (s.rows entity).filter (fun h => !s.passes filter h) := by
    rw [rows_delete, if_pos rfl, kept]
  have hnone : after.findAll entity (some filter) = [] := by
    simp [findAll, hleft, after, passes_delete]
  refine ⟨rfl, fun h => find_eq_ok_iff, find_eq_error_iff, rfl, fst_delete_matching s entity filter, hleft,
    hnone, ?_, ?_, ?_⟩
  · rw [fst_delete_matching, hnone, List.length_nil]
  · intro other hne
    exact (rows_delete s entity other (.matching filter)).trans (if_neg hne.symm)
  · intro h
    rw [(delete_spec s entity (.matching filter)).1]

/-! ## A new record and the fields it was made from -/

theorem get_create (s : Store) (entity : String) (fields : Fields Value) :
    (s.create entity fields).2.heap.get (s.create entity fields).1 =
      ⟨(s.table entity).lastId + 1, ((s.defaults.get? entity).getD .empty).merge
        (Fields.erase (s.heap.detachFields fields) "id")⟩ :=
  Heap.get_alloc_self s.heap _

theorem get?_detachFields (heap : Heap) (fields : Fields Value) (name : String) :
    Fields.get? (heap.detachFields fields) name = (fields.get? name).map heap.detach := by
  rw [Heap.detachFields_eq_map]
  exact Fields.get?_mapValues heap.detach fields name

theorem sorted_detachFields (heap : Heap) {fields : Fields Value} (h : fields.Sorted) :
    Fields.Sorted (heap.detachFields fields) := by
  rw [Heap.detachFields_eq_map]
  exact List.pairwise_map.mpr h

/-- A field that is given is stored as a detached copy, whatever the default for it. -/
theorem get?_get_create (s : Store) (entity : String) {fields : FieldMap Value} {entry : String × Value}
    (hentry : entry ∈ fields.entries) (hid : entry.1 ≠ "id") :
    ((s.create entity fields).2.heap.get (s.create entity fields).1).get? entry.1 =
      some (s.heap.detach entry.2) := by
  have hgiven := Fields.sorted_erase (sorted_detachFields s.heap fields.sorted) "id"
  have hvalue : fields.entries.get? entry.1 = some entry.2 := FieldMap.mem_iff_get?.mp hentry
  rw [get_create, Record.get?, if_neg hid, FieldMap.get?_merge _ hgiven, Fields.get?_erase, if_neg hid.symm,
    get?_detachFields, hvalue]
  rfl

/-- The new record is a row, so a search finds it just if it passes. -/
theorem mem_findAll_create {s : Store} {entity : String} {fields : Fields Value} {filter : Filter} :
    (s.create entity fields).1 ∈ (s.create entity fields).2.findAll entity (some filter) ↔
      (s.create entity fields).2.passes filter (s.create entity fields).1 = true := by
  have hrow : (s.create entity fields).1 ∈ (s.create entity fields).2.rows entity :=
    mem_rows_create.mpr (Or.inr ⟨rfl, rfl⟩)
  rw [findAll, List.mem_filter]
  exact and_iff_right hrow

/-- A new record passes a filter for the fields it was given, each changed by `f`, just if the stored copies
equal what is asked for. -/
theorem passes_create (s : Store) (entity : String) {fields : FieldMap Value} (hid : "id" ∉ fields.names)
    (f : Value → Value) :
    (s.create entity fields).2.passes (.fields (fields.entries.mapValues f)) (s.create entity fields).1 = true ↔
      ∀ entry ∈ fields.entries,
        (s.create entity fields).2.heap.equal (s.heap.detach entry.2) (f entry.2) = true := by
  rw [passes, Filter.holds, List.all_eq_true, Fields.mapValues, List.forall_mem_map]
  refine forall₂_congr ?_
  intro entry hentry
  have hne : entry.1 ≠ "id" := fun heq => hid (heq ▸ List.mem_map_of_mem hentry)
  rw [get?_get_create s entity hentry hne, Option.getD_some]

/-- **A new record is found by the fields it was made from** just if no handle stands in them, at any
depth. It is always found by what is stored of them, in which each handle is replaced by a plain copy of
its record. A NaN equals nothing, so none may stand in what is asked for. -/
theorem created_found_iff (s : Store) (entity : String) (fields : FieldMap Value)
    (hid : "id" ∉ fields.names) (hnan : Value.hasNaNFields fields = false) :
    let r := (s.create entity fields).1
    let after := (s.create entity fields).2
    let stored := s.heap.detachFields fields
    (r ∈ after.findAll entity (some (.fields fields)) ↔ Value.handlesFields fields = []) ∧
      (Value.hasNaNFields stored = false → r ∈ after.findAll entity (some (.fields stored))) := by
  intro r after stored
  refine ⟨?_, ?_⟩
  -- The fields themselves are the case in which `f` changes nothing.
  · have hsame : fields.entries.mapValues id = fields := List.map_id'' (fun _ => rfl) fields.entries
    have hpasses := passes_create s entity hid id
    rw [hsame] at hpasses
    rw [mem_findAll_create, hpasses, Value.handlesFields_eq_nil]
    -- Field by field, a stored copy is compared with what it was taken from.
    refine forall₂_congr ?_
    intro entry hentry
    have hentryNaN := Value.hasNaNFields_eq_false.mp hnan entry hentry
    exact (Value.eqWith_detach _ s.heap entry.2).trans (and_iff_left hentryNaN)
  -- Here the copy is compared with itself; a handle inside it, if there is one, is no obstacle.
  · intro hstored
    have hmapped : stored = fields.entries.mapValues s.heap.detach := Heap.detachFields_eq_map s.heap fields
    rw [mem_findAll_create, hmapped, passes_create s entity hid]
    intro entry hentry
    rw [Heap.equal_self]
    refine Value.hasNaNFields_eq_false.mp hstored (entry.1, s.heap.detach entry.2) ?_
    rw [hmapped]
    exact List.mem_map_of_mem hentry

/-- A post with a list, a function and a number inside an object is found by all of them; one that is made
with its owner, a stored user, by a copy of the owner. -/
theorem created_found_iff_of_nested :
    let plain : FieldMap Value := .ofEntries [("about", .obj [("by", .func .log), ("stars", .num 5)]),
      ("tags", .list [.str "a", .null])]
    let owned : FieldMap Value := .ofEntries [("owners", .list [.record ⟨0⟩])]
    let s := (empty.create "User" [("name", .str "ada")]).2
    ("id" ∉ plain.names ∧ Value.hasNaNFields plain = false ∧
      (s.create "Post" plain).1 ∈ (s.create "Post" plain).2.findAll "Post" (some (.fields plain))) ∧
      ("id" ∉ owned.names ∧ Value.hasNaNFields owned = false ∧
        (s.create "Post" owned).1 ∈
          (s.create "Post" owned).2.findAll "Post" (some (.fields (s.heap.detachFields owned)))) := by
  intro plain owned s
  have hplain : "id" ∉ plain.names ∧ Value.hasNaNFields plain = false := by decide
  have howned : "id" ∉ owned.names ∧ Value.hasNaNFields owned = false := by decide
  have hstored : Value.hasNaNFields (s.heap.detachFields owned) = false := by decide
  have hfound := (created_found_iff s "Post" plain hplain.1 hplain.2).1
  have hcopy := (created_found_iff s "Post" owned howned.1 howned.2).2
  exact ⟨⟨hplain.1, hplain.2, hfound.mpr rfl⟩, ⟨howned.1, howned.2, hcopy hstored⟩⟩

/-- A post is made with its owner, a user that is stored. Asked for the posts of this very owner, the store
finds none, though the post is there. -/
theorem handle_hides_created :
    let s := (empty.create "User" [("name", .str "ada")]).2
    let fields : Fields Value := [("owner", .record ⟨0⟩)]
    let after := (s.create "Post" fields).2
    "id" ∉ fields.names ∧ Value.hasNaNFields fields = false ∧
      (s.create "Post" fields).1 ∈ after.findAll "Post" none ∧
      (s.create "Post" fields).1 ∉ after.findAll "Post" (some (.fields fields)) := by
  decide

end ServiceEngine.Store
