import Mathlib
import ServiceEngine.Proofs.Store.History
import ServiceEngine.Proofs.Store.Queries

/-!
# Updates in place

An update finds the row with an id and writes a patch into its record. The record is shared: whoever holds
its handle reads the new fields. The patch may hold handles too, also the handle of the record that it is
written into, and each is replaced by a copy of what its record was before the update.

`Store.update_merges_in_place` says what a record reads after an update, which handle is answered, and that
nothing else changes.
-/

namespace ServiceEngine

/-! ## One record -/

/-- A patched record has the fields of the patch, and its own where the patch has none. -/
theorem Record.get?_merge (r : Record) {patch : Fields Value} (hmap : patch.Sorted) {name : String}
    (hname : name ≠ "id") : (r.merge patch).get? name = (patch.get? name).or (r.get? name) := by
  unfold Record.get? Record.merge
  rw [if_neg hname, if_neg hname, FieldMap.get?_merge _ (Fields.sorted_erase hmap "id"), Fields.get?_erase,
    if_neg hname.symm]

namespace Store

/-! ## The row with an id -/

theorem mem_rows_of_row? {s : Store} {entity : String} {id : UInt64} {h : Handle}
    (hrow : s.row? entity id = some h) : h ∈ s.rows entity ∧ (s.heap.get h).id = id := by
  have hid := List.find?_some hrow
  exact ⟨List.mem_of_find?_eq_some hrow, beq_iff_eq.mp hid⟩

theorem exists_row?_iff {s : Store} {entity : String} {id : UInt64} :
    (∃ h, s.row? entity id = some h) ↔ ∃ h ∈ s.rows entity, (s.heap.get h).id = id := by
  rw [← Option.isSome_iff_exists, row?, List.find?_isSome]
  simp only [beq_iff_eq]

/-- An update finds its row or changes nothing; the patch does not matter. -/
theorem exists_update_iff {s : Store} {entity : String} {id : UInt64} {patch : Fields Value} :
    (∃ h after, s.update entity id patch = .ok (h, after)) ↔
      ∃ h ∈ s.rows entity, (s.heap.get h).id = id := by
  simp only [← exists_row?_iff, update_eq_ok_iff]
  constructor
  · rintro ⟨h, -, hrow, -⟩
    exact ⟨h, hrow⟩
  · rintro ⟨h, hrow⟩
    exact ⟨h, _, hrow, rfl⟩

/-! ## What an update writes -/

/-- An update replaces the record of one row, which exists, by the patched record. -/
theorem get_update {s after : Store} {entity : String} {id : UInt64} {patch : Fields Value} {h : Handle}
    (hupdate : s.update entity id patch = .ok (h, after)) (hlive : h.index < s.heap.size) (k : Handle) :
    after.heap.get k =
      if h = k then (s.heap.get h).merge (s.heap.detachFields patch) else s.heap.get k := by
  obtain ⟨-, rfl⟩ := update_eq_ok_iff.mp hupdate
  show (s.heap.set h _).get k = _
  rw [Heap.get_set]
  simp only [hlive, and_true]

/-- As long as an entity does not run out of ids, an id names the record that it was given out with. -/
theorem Numbered.record_eq {s : Store} {entity : String} {issued : List Issue}
    (hs : Numbered s entity issued) {first second : Issue} (hfirst : first ∈ issued)
    (hsecond : second ∈ issued) (hid : first.id = second.id) : first.record = second.record := by
  -- The ids that were given out are different numbers.
  have hnodup : (issued.map (fun issue => issue.id.toNat)).Nodup := by
    rw [hs.ids_eq]
    exact List.nodup_range'
  have hsame := List.inj_on_of_nodup_map hnodup hfirst hsecond (congrArg UInt64.toNat hid)
  exact congrArg Issue.record hsame

/-- **An update is a merge in place.** In the store after any history it succeeds just if the entity has a
row with the id, whatever the patch. Then it answers with a handle that a `create` gave out for this entity
with this id, and with no other as long as the entity has not run out of ids. Under every name but `id` the
record reads what the patch has, detached before the update, and what it had before if the patch has
nothing there; it keeps its id. All other records stay as they are, rows or not, as do all tables with the
order of their rows and their counters, and all defaults. -/
theorem update_merges_in_place (actions : List HostAction) (entity : String) (id : UInt64) (patch : FieldMap Value) :
    let s := empty.afterActions actions
    let issued := issuesOf (empty.actionIssues actions) entity
    ((∃ h after, s.update entity id patch = .ok (h, after)) ↔
        ∃ h ∈ s.rows entity, (s.heap.get h).id = id) ∧
      ∀ h after, s.update entity id patch = .ok (h, after) →
        h ∈ s.rows entity ∧ (s.heap.get h).id = id ∧
          (∃ issue ∈ issued, issue.id = id ∧ issue.record = h) ∧
          (issued.length < UInt64.size → ∀ issue ∈ issued, issue.id = id → issue.record = h) ∧
          (after.heap.get h).id = id ∧
          (∀ name, name ≠ "id" → (after.heap.get h).get? name =
            ((patch.get? name).map s.heap.detach).or ((s.heap.get h).get? name)) ∧
          (∀ other, other ≠ h → after.heap.get other = s.heap.get other) ∧
          after.heap.size = s.heap.size ∧ after.tables = s.tables ∧ after.defaults = s.defaults := by
  intro s issued
  refine ⟨exists_update_iff, ?_⟩
  intro h after hupdate
  obtain ⟨hrow, hafter⟩ := update_eq_ok_iff.mp hupdate
  obtain ⟨hmem, hid⟩ := mem_rows_of_row? hrow
  -- The row was given out with the id that it has, so it exists.
  have hs : Issued s (empty.actionIssues actions) := issued_afterActions actions
  have hissue : (⟨entity, h, id⟩ : Issue) ∈ empty.actionIssues actions := hid ▸ hs.rows entity h hmem
  have hissued : (⟨entity, h, id⟩ : Issue) ∈ issued := List.mem_filter.mpr ⟨hissue, decide_eq_true rfl⟩
  have hget := get_update hupdate (hs.exist _ hissue)
  have hself : after.heap.get h = (s.heap.get h).merge (s.heap.detachFields patch) := by
    rw [hget, if_pos rfl]
  refine ⟨hmem, hid, ⟨_, hissued, rfl, rfl⟩, ?_, ?_, ?_, ?_, ?_⟩
  -- An id that was given out twice would belong to two records.
  · intro hbound issue hother heq
    exact (numbered_afterActions actions entity hbound).record_eq hother hissued heq
  · rw [hself]
    exact hid
  · intro name hname
    rw [hself, Record.get?_merge _ (sorted_detachFields s.heap patch.sorted) hname, get?_detachFields,
      FieldMap.get?]
  · intro other hne
    rw [hget, if_neg hne.symm]
  · subst hafter
    exact ⟨Heap.size_set s.heap h _, rfl, rfl⟩

/-- The second of two users is patched with a list that holds both of them, under a name that it had, and
with an `id`. It reads copies of the two as they were, the copy of itself with the old name; its id is 2. -/
theorem update_merges_in_place_of_self :
    let patch : FieldMap Value := .ofEntries [("id", .str "x"), ("name", .list [.record ⟨0⟩, .record ⟨1⟩])]
    let actions : List HostAction := [.call (.create "User" [("name", .str "ada")]),
      .call (.create "User" [("name", .str "bob"), ("old", .bool true)])]
    let s := empty.afterActions actions
    ∃ h after, s.update "User" 2 patch = .ok (h, after) ∧
      (after.heap.get h).id = 2 ∧ (after.heap.get h).get? "old" = some (.bool true) ∧
      (after.heap.get h).get? "name" = some (.list
        [.obj [("id", .num (Decimal.floatOfNat 1)), ("name", .str "ada")],
          .obj [("id", .num (Decimal.floatOfNat 2)), ("name", .str "bob"), ("old", .bool true)]]) ∧
      after.tables = s.tables := by
  intro patch actions s
  obtain ⟨hiff, hspec⟩ := update_merges_in_place actions "User" 2 patch
  obtain ⟨h, after, hupdate⟩ := hiff.mpr ⟨⟨1⟩, List.mem_of_getElem? (i := 1) rfl, rfl⟩
  obtain ⟨-, -, -, -, hid, hget, -, -, htables, -⟩ := hspec h after hupdate
  obtain rfl : h = ⟨1⟩ := by
    obtain ⟨hrow, -⟩ := update_eq_ok_iff.mp hupdate
    exact (Option.some.inj hrow).symm
  refine ⟨_, after, hupdate, hid, ?_, ?_, htables⟩
  · rw [hget "old" (by decide)]
    rfl
  · rw [hget "name" (by decide)]
    rfl

end Store

end ServiceEngine
