import Mathlib
import ServiceEngine.Proofs.Decimal.WholeNumbers
import ServiceEngine.Proofs.Exec.Procedures
import ServiceEngine.Proofs.Lists
import ServiceEngine.Proofs.Store.Updates

/-!
# Ways to name a record

A program names a record by its id, as a number or a decimal text, or by its handle. `find` turns the id
back into a number and asks for the rows whose field `id` equals it, while `update` and `delete` look for
the word itself. The two agree for a table whose ids are below `2 ^ 53`: there a float tells an id apart
from every other word, so the three operations address one and the same row
(`names_address_one_row`).
-/

namespace ServiceEngine

/-! ## Reading ids -/

namespace Argument

/-- **The number of an id below `2 ^ 53` is read as this id.** -/
theorem numberId_floatOfNat {id : UInt64} (hid : id.toNat < 2 ^ 53) :
    numberId (Decimal.floatOfNat id.toNat) = .ok id := by
  -- The greatest word is no limit for an id, which is a word itself.
  have hsmall : min id.toNat (UInt64.size - 1) = id.toNat := by
    apply Nat.min_eq_left
    have hlt := id.toNat_lt_size
    omega
  rw [numberId, Decimal.whole?_floatOfNat hid]
  simp only [if_neg (Decimal.not_floatOfNat_lt_zero hid), Int.toNat_natCast, hsmall, UInt64.ofNat_toNat]

/-- The decimal text of an id below `2 ^ 53` is read as this id. -/
theorem id_decimal (heap : Heap) {id : UInt64} (hid : id.toNat < 2 ^ 53) :
    Argument.id heap (.str (toString id.toNat)) = .ok id := by
  have hdigits : (toString id.toNat).toList = Decimal.digitsOf id.toNat := Nat.toList_repr
  have htrim : Text.trim (Decimal.digitsOf id.toNat) = Decimal.digitsOf id.toNat := by
    apply Text.trim_of_forall
    intro c hmem
    exact Text.isBlank_of_isDigit (Decimal.isDigit_of_mem_digitsOf hmem)
  rw [Argument.id, hdigits, htrim, Decimal.float?_digitsOf hid]
  exact numberId_floatOfNat hid

end Argument

/-! ## Rows by id -/

namespace Store

section

variable {s : Store} {entity : String} {issued : List Issue}

/-- The ids of a table tell its rows apart. -/
theorem Numbered.eq_of_id (hs : Numbered s entity issued) {row other : Handle} (hrow : row ∈ s.rows entity)
    (hother : other ∈ s.rows entity) (hid : (s.heap.get row).id = (s.heap.get other).id) : row = other := by
  -- Ids ascend along the rows, so none occurs twice.
  have hnodup : ((s.rows entity).map s.idOf).Nodup :=
    List.pairwise_map.mpr (hs.ascending.imp Nat.ne_of_lt)
  exact List.inj_on_of_nodup_map hnodup hrow hother (congrArg UInt64.toNat hid)

/-- The row with the id of a row is this row. -/
theorem Numbered.row?_eq (hs : Numbered s entity issued) {row : Handle} (hrow : row ∈ s.rows entity) :
    s.row? entity (s.heap.get row).id = some row := by
  obtain ⟨found, hfound⟩ := exists_row?_iff.mpr ⟨row, hrow, rfl⟩
  obtain ⟨hmem, hid⟩ := mem_rows_of_row? hfound
  rw [hfound, hs.eq_of_id hmem hrow hid]

theorem row?_eq_none {id : UInt64} (hnone : ∀ row ∈ s.rows entity, (s.heap.get row).id ≠ id) :
    s.row? entity id = none := by
  rw [row?, List.find?_eq_none]
  intro row hrow
  rw [beq_iff_eq]
  exact hnone row hrow

/-- Where fewer than `2 ^ 53` ids were given out, every id is below. -/
theorem Numbered.toNat_id_lt (hs : Numbered s entity issued) (hfew : issued.length < 2 ^ 53) {row : Handle}
    (hrow : row ∈ s.rows entity) : (s.heap.get row).id.toNat < 2 ^ 53 := by
  have hlast := (hs.bounded row hrow).2
  rw [hs.lastId_eq] at hlast
  exact hlast.trans_lt hfew

/-- **A search by number is a search by id**, as long as the ids of the table are below `2 ^ 53`. -/
theorem Numbered.find?_byId (hs : Numbered s entity issued) (hfew : issued.length < 2 ^ 53) (id : UInt64) :
    (s.rows entity).find? (s.passes (.byId id)) = s.row? entity id := by
  apply List.find?_congr
  intro row hrow
  -- The field `id` of a record is always its id, so two floats are compared.
  have hpasses : s.passes (.byId id) row =
      (Decimal.floatOfNat (s.heap.get row).id.toNat == Decimal.floatOfNat id.toNat) := Bool.and_true _
  rw [hpasses, Bool.eq_iff_iff, Decimal.floatOfNat_beq_iff (hs.toNat_id_lt hfew hrow) id.toNat_lt_size,
    beq_iff_eq, UInt64.toNat_inj]

/-- A delete by id takes out the row with this id. -/
theorem Numbered.rows_delete_id (hs : Numbered s entity issued) {row : Handle} (hrow : row ∈ s.rows entity) :
    (s.delete entity (.id (s.heap.get row).id)).2.rows entity = (s.rows entity).erase row := by
  rw [rows_delete, if_pos rfl, kept, List.erase_eq_eraseP]
  apply eraseP_congr
  intro other hother
  rw [Bool.eq_iff_iff, beq_iff_eq, beq_iff_eq]
  constructor
  · intro hid
    exact (hs.eq_of_id hother hrow hid).symm
  · rintro rfl
    rfl

end

/-- A delete by an id that no row has leaves all tables alone. -/
theorem rows_delete_of_row?_eq_none {s : Store} {entity : String} {id : UInt64}
    (hnone : s.row? entity id = none) (other : String) :
    (s.delete entity (.id id)).2.rows other = s.rows other := by
  rw [rows_delete]
  split
  case isTrue heq =>
    rw [kept, ← heq]
    exact List.eraseP_of_forall_not (List.find?_eq_none.mp hnone)
  case isFalse => rfl

end Store

/-! ## The operations of a program -/

/-- The three operations read the id in the same way. -/
theorem Query.ofArguments_of_namesRecord {v : Value} (hv : Argument.namesRecord v = true) (heap : Heap)
    (patch : Fields Value) :
    let id := Argument.id heap v
    ofArguments heap .find [v] = id.map (fun id => .find (.byId id)) ∧
      ofArguments heap .update [v, .obj patch] = id.map (fun id => .update id patch) ∧
      ofArguments heap .delete [v] = id.map (fun id => .delete (.id id)) := by
  refine ⟨?_, ?_, ?_⟩
  · rw [ofArguments, if_pos hv]
  · rw [ofArguments]
    cases Argument.id heap v <;> rfl
  · rw [ofArguments, if_pos hv]

namespace World

/-- A call of a store operation by a program: its answer, and the world after it. -/
def ask (w : World) (entity : String) (operation : Operation) (args : List Value) :
    Except Fault Value × World :=
  (Action.atomically ((Builtin.database (some entity) operation).call args)).run w

/-- A program's call is answered as its arguments are understood, and carried out if they are. -/
theorem ask_eq (w : World) (entity : String) (operation : Operation) (args : List Value) :
    w.ask entity operation args =
      Procedure.settle w (Procedure.answer w.store entity (Builtin.database (some entity) operation).name
        (Query.ofArguments w.heap operation args)) := by
  rw [ask, Procedure.run_atomically_database, Builtin.callDatabase, Procedure.callOn_eq_answer]
  rfl

section

variable {w : World} {entity : String} {issued : List Store.Issue} {v : Value}

/-- An id that cannot be read is refused by all three operations alike. -/
theorem ask_of_bad_id {why : BadArgument} (hv : Argument.namesRecord v = true)
    (hid : Argument.id w.heap v = .error why) (patch : Fields Value) :
    w.ask entity .find [v] = (.error (.badArgument (Builtin.database (some entity) .find).name why), w) ∧
      w.ask entity .update [v, .obj patch] =
        (.error (.badArgument (Builtin.database (some entity) .update).name why), w) ∧
      w.ask entity .delete [v] =
        (.error (.badArgument (Builtin.database (some entity) .delete).name why), w) := by
  obtain ⟨hfind, hupdate, hdelete⟩ := Query.ofArguments_of_namesRecord hv w.heap patch
  rw [hid] at hfind hupdate hdelete
  refine ⟨?_, ?_, ?_⟩
  · rw [ask_eq, hfind]
    rfl
  · rw [ask_eq, hupdate]
    rfl
  · rw [ask_eq, hdelete]
    rfl

/-- An id that is read addresses the row that has it. -/
theorem ask_of_row (hs : w.store.Numbered entity issued) (hfew : issued.length < 2 ^ 53)
    (hv : Argument.namesRecord v = true) {row : Handle} (hrow : row ∈ w.store.rows entity)
    (hid : Argument.id w.heap v = .ok (w.heap.get row).id) (patch : Fields Value) :
    w.ask entity .find [v] = (.ok (.record row), w) ∧
      (∃ after, w.store.update entity (w.heap.get row).id patch = .ok (row, after) ∧
        w.ask entity .update [v, .obj patch] = (.ok (.record row), { w with store := after })) ∧
      ∃ after, w.ask entity .delete [v] = (.ok (.num 1), { w with store := after }) ∧
        after.rows entity = (w.store.rows entity).erase row := by
  obtain ⟨hfind, hupdate, hdelete⟩ := Query.ofArguments_of_namesRecord hv w.heap patch
  rw [hid] at hfind hupdate hdelete
  have hfound : w.store.row? entity (w.heap.get row).id = some row := hs.row?_eq hrow
  refine ⟨?_, ?_, ?_⟩
  -- The search by number is the search by id, which finds the row.
  · have hone : w.store.find entity (.byId (w.heap.get row).id) = .ok row := by
      rw [Store.find, hs.find?_byId hfew, hfound]
    rw [ask_eq, hfind]
    simp only [Except.map, Procedure.answer, Query.perform, hone]
    rfl
  · obtain ⟨after, hafter⟩ : ∃ after, w.store.update entity (w.heap.get row).id patch = .ok (row, after) :=
      ⟨_, Store.update_eq_ok_iff.mpr ⟨hfound, rfl⟩⟩
    refine ⟨after, hafter, ?_⟩
    rw [ask_eq, hupdate]
    simp only [Except.map, Procedure.answer, Query.perform, hafter]
    rfl
  -- One row has the id, so one is removed.
  · have hone : (w.store.delete entity (.id (w.heap.get row).id)).1 = 1 := by
      rw [Store.fst_delete, Store.removed, hfound]
      rfl
    refine ⟨_, ?_, hs.rows_delete_id hrow⟩
    rw [ask_eq, hdelete]
    simp only [Except.map, Procedure.answer, Query.perform, hone]
    rfl

/-- An id that no row has is not found, and there is nothing to delete. -/
theorem ask_of_no_row (hs : w.store.Numbered entity issued) (hfew : issued.length < 2 ^ 53)
    (hv : Argument.namesRecord v = true) {id : UInt64} (hid : Argument.id w.heap v = .ok id)
    (hnone : ∀ row ∈ w.store.rows entity, (w.heap.get row).id ≠ id) (patch : Fields Value) :
    w.ask entity .find [v] =
        (.error (.notFound ⟨entity, (Filter.byId id).describe w.heap⟩), w) ∧
      w.ask entity .update [v, .obj patch] =
        (.error (.notFound ⟨entity, "id " ++ toString id.toNat⟩), w) ∧
      ∃ after, w.ask entity .delete [v] = (.ok (.num 0), { w with store := after }) ∧
        ∀ other, after.rows other = w.store.rows other := by
  obtain ⟨hfind, hupdate, hdelete⟩ := Query.ofArguments_of_namesRecord hv w.heap patch
  rw [hid] at hfind hupdate hdelete
  have hrow : w.store.row? entity id = none := Store.row?_eq_none hnone
  refine ⟨?_, ?_, ?_⟩
  -- The message of a failed search names the number, that of a failed update the word.
  · have hmissing : w.store.find entity (.byId id) = .error ⟨entity, (Filter.byId id).describe w.heap⟩ := by
      rw [Store.find, hs.find?_byId hfew, hrow]
      rfl
    rw [ask_eq, hfind]
    simp only [Except.map, Procedure.answer, Query.perform, hmissing]
    rfl
  · have hmissing : w.store.update entity id patch = .error ⟨entity, "id " ++ toString id.toNat⟩ := by
      rw [Store.update, hrow]
    rw [ask_eq, hupdate]
    simp only [Except.map, Procedure.answer, Query.perform, hmissing]
    rfl
  · have hzero : (w.store.delete entity (.id id)).1 = 0 := by
      rw [Store.fst_delete, Store.removed, hrow]
      rfl
    refine ⟨_, ?_, Store.rows_delete_of_row?_eq_none hrow⟩
    rw [ask_eq, hdelete]
    simp only [Except.map, Procedure.answer, Query.perform, hzero]
    rfl

end

end World

/-- **All ways to name a record address the same row.** Take a store after any history in which fewer than
`2 ^ 53` records of an entity were created, a number, a text or a handle, and any patch.

If the value cannot be read as an id, `find`, `update` and `delete` refuse it for the same reason and
change nothing. If it is read as an id that a row has, `find` and `update` answer with the handle of this
row, which is the one that is written to, and `delete` takes out this row and answers 1. If no row has the
id, the first two do not find it and the third answers 0. And the id of each row is what is read from its
number, its decimal text and its handle. -/
theorem names_address_one_row (actions : List Store.HostAction) (entity : String)
    (hcreates : (Store.issuesOf (Store.empty.actionIssues actions) entity).length < 2 ^ 53) (w : World)
    (hw : w.store = Store.empty.afterActions actions) (v : Value) (hv : Argument.namesRecord v = true)
    (patch : Fields Value) :
    (∀ why, Argument.id w.heap v = .error why →
        w.ask entity .find [v] =
            (.error (.badArgument (Builtin.database (some entity) .find).name why), w) ∧
          w.ask entity .update [v, .obj patch] =
            (.error (.badArgument (Builtin.database (some entity) .update).name why), w) ∧
          w.ask entity .delete [v] =
            (.error (.badArgument (Builtin.database (some entity) .delete).name why), w)) ∧
      (∀ id, Argument.id w.heap v = .ok id →
        (∀ row ∈ w.store.rows entity, (w.heap.get row).id = id →
          w.ask entity .find [v] = (.ok (.record row), w) ∧
            (∃ after, w.store.update entity id patch = .ok (row, after) ∧
              w.ask entity .update [v, .obj patch] = (.ok (.record row), { w with store := after })) ∧
            ∃ after, w.ask entity .delete [v] = (.ok (.num 1), { w with store := after }) ∧
              after.rows entity = (w.store.rows entity).erase row) ∧
          ((∀ row ∈ w.store.rows entity, (w.heap.get row).id ≠ id) →
            w.ask entity .find [v] =
                (.error (.notFound ⟨entity, (Filter.byId id).describe w.heap⟩), w) ∧
              w.ask entity .update [v, .obj patch] =
                (.error (.notFound ⟨entity, "id " ++ toString id.toNat⟩), w) ∧
              ∃ after, w.ask entity .delete [v] = (.ok (.num 0), { w with store := after }) ∧
                ∀ other, after.rows other = w.store.rows other)) ∧
      ∀ row ∈ w.store.rows entity,
        let id := (w.heap.get row).id
        Argument.id w.heap (.num (Decimal.floatOfNat id.toNat)) = .ok id ∧
          Argument.id w.heap (.str (toString id.toNat)) = .ok id ∧
          Argument.id w.heap (.record row) = .ok id := by
  -- The counters of a history with so few creations have not run over, so the ids are those given
  -- out.
  have hs : w.store.Numbered entity (Store.issuesOf (Store.empty.actionIssues actions) entity) := by
    rw [hw]
    exact Store.numbered_afterActions actions entity (hcreates.trans (by decide))
  refine ⟨?_, ?_, ?_⟩
  · intro why hid
    exact World.ask_of_bad_id hv hid patch
  · intro id hid
    refine ⟨?_, fun hnone => World.ask_of_no_row hs hcreates hv hid hnone patch⟩
    rintro row hrow rfl
    exact World.ask_of_row hs hcreates hv hrow hid patch
  · intro row hrow id
    have hsmall : id.toNat < 2 ^ 53 := hs.toNat_id_lt hcreates hrow
    exact ⟨Argument.numberId_floatOfNat hsmall, Argument.id_decimal w.heap hsmall, rfl⟩

/-- Two users are created and the first is deleted. The text ` 2e0 ` names the second, which is found by it;
the handle of the first is still read as 1, which names no row. -/
theorem names_address_one_row_of_text :
    let actions : List Store.HostAction := [.call (.create "User" []), .call (.create "User" []),
      .call (.delete "User" (.id 1))]
    let w : World := ⟨Store.empty.afterActions actions, #[], 0⟩
    (Store.issuesOf (Store.empty.actionIssues actions) "User").length < 2 ^ 53 ∧
      w.ask "User" .find [.str " 2e0 "] = (.ok (.record ⟨1⟩), w) ∧
      w.ask "User" .update [.record ⟨0⟩, .obj [("name", .str "eve")]] =
        (.error (.notFound ⟨"User", "id 1"⟩), w) := by
  intro actions w
  have hcreates : (Store.issuesOf (Store.empty.actionIssues actions) "User").length < 2 ^ 53 := by decide
  have hrows : w.store.rows "User" = [⟨1⟩] := by rfl
  obtain ⟨-, htext, -⟩ := names_address_one_row actions "User" hcreates w rfl (.str " 2e0 ") rfl []
  obtain ⟨-, hhandle, -⟩ :=
    names_address_one_row actions "User" hcreates w rfl (.record ⟨0⟩) rfl [("name", .str "eve")]
  have hnone : ∀ row ∈ w.store.rows "User", (w.heap.get row).id ≠ 1 := by
    intro row hrow
    rw [hrows, List.mem_singleton] at hrow
    subst hrow
    decide
  refine ⟨hcreates, ((htext 2 rfl).1 ⟨1⟩ ?_ rfl).1, ((hhandle 1 rfl).2 hnone).2.1⟩
  rw [hrows]
  exact List.mem_singleton_self _

end ServiceEngine
