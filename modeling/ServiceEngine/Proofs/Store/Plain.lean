import Mathlib
import ServiceEngine.Program.Definition
import ServiceEngine.Proofs.Store.History
import ServiceEngine.Proofs.Value.Handles

/-!
# Stored records hold no handles

Handles flow freely through programs, but what is written into a record is detached first. So records hold
plain values only, after any history in which the host keeps to two rules: defaults come from a declared
model, and the records that it makes for itself hold no handles (`Store.HostAction.Allowed`).

`Store.Plain` is the invariant. A call keeps it as long as the defaults that it sets are plain
(`Store.Plain.call`); programs set none (`Store.setsPlain_query`).
-/

namespace ServiceEngine

/-! ## Heaps -/

theorem Heap.plain_empty : Heap.empty.Plain := fun _ => rfl

theorem Heap.Plain.alloc {heap : Heap} (hplain : heap.Plain) {r : Record} (hr : r.handles = []) :
    (heap.alloc r).2.Plain := by
  intro h
  rw [Heap.get_alloc]
  split
  · exact hr
  · exact hplain h

theorem Heap.Plain.set {heap : Heap} (hplain : heap.Plain) (h : Handle) {r : Record} (hr : r.handles = []) :
    (heap.set h r).Plain := by
  intro k
  rw [Heap.get_set]
  split
  · exact hr
  · exact hplain k

namespace Store

/-! ## Calls -/

/-- No record of the store holds a handle, and no default does. -/
structure Plain (s : Store) : Prop where
  heap : s.heap.Plain
  defaults : ∀ entry ∈ s.defaults.entries, Value.handlesFields entry.2 = []

theorem plain_empty : Plain empty := by
  refine ⟨Heap.plain_empty, ?_⟩
  intro entry hmem
  cases hmem

/-- The defaults that the call sets, if it sets any, hold no handle. -/
def Call.SetsPlain : Call → Prop
  | .define _ defaults => Value.handlesFields defaults = []
  | _ => True

theorem defaults_foldl_emit (s : Store) (entity : String) (kind : EventKind) (handles : List Handle) :
    (handles.foldl (fun s h => s.emit entity kind h) s).defaults = s.defaults := by
  induction handles generalizing s with
  | nil => rfl
  | cons h rest ih => exact ih (s.emit entity kind h)

theorem defaults_delete (s : Store) (entity : String) (target : Target) :
    (s.delete entity target).2.defaults = s.defaults := by
  cases htable : s.tables.get? entity with
  | none => simp only [delete, htable]
  | some t =>
    rw [delete_of_table target htable, defaults_foldl_emit]

/-- A new record holds no handle: its defaults have none, and what is given is detached. -/
theorem Plain.create {s : Store} (hs : Plain s) (entity : String) (fields : Fields Value) :
    Plain (s.create entity fields).2 := by
  -- The new record has the defaults and, over them, what is given, detached.
  refine ⟨hs.heap.alloc ?_, hs.defaults⟩
  have hgiven := hs.heap.handlesFields_detachFields fields
  refine Value.handlesFields_merge ?_ (Value.handlesFields_erase "id" hgiven)
  cases hdefaults : s.defaults.get? entity with
  | none => rfl
  | some defaults => exact hs.defaults _ (Fields.mem_of_get? hdefaults)

theorem Plain.update {s s' : Store} (hs : Plain s) {entity : String} {id : UInt64} {patch : Fields Value}
    {h : Handle} (hupdate : s.update entity id patch = .ok (h, s')) : Plain s' := by
  obtain ⟨-, rfl⟩ := update_eq_ok_iff.mp hupdate
  refine ⟨hs.heap.set h ?_, hs.defaults⟩
  -- The patch may hold the very record that it is written into; it is detached before.
  have hpatch := hs.heap.handlesFields_detachFields patch
  exact Value.handlesFields_merge (hs.heap h) (Value.handlesFields_erase "id" hpatch)

/-- **A call keeps the store plain.** -/
theorem Plain.call {s : Store} (hs : Plain s) {call : Call} (hcall : call.SetsPlain) :
    Plain (call.perform s) := by
  cases call with
  | define entity defaults =>
    refine ⟨hs.heap, ?_⟩
    intro entry hmem
    -- The defaults of the entity are replaced, those of the others stay.
    rcases Fields.mem_insert hmem with rfl | hmem
    · exact hcall
    · exact hs.defaults entry hmem
  | create entity fields => exact hs.create entity fields
  | update entity id patch =>
    rw [Call.perform]
    cases hupdate : s.update entity id patch with
    | ok result => exact hs.update hupdate
    | error why => exact hs
  | delete entity target =>
    obtain ⟨hheap, -⟩ := delete_spec s entity target
    refine ⟨?_, ?_⟩
    · rw [Call.perform, hheap]
      exact hs.heap
    · rw [Call.perform, defaults_delete]
      exact hs.defaults
  | _ => exact hs

theorem setsPlain_query (entity : String) (query : Query) : (query.call entity).SetsPlain := by
  cases query <;> trivial

end Store

/-! ## Histories -/

/-- The defaults of a declared model are JSON, and JSON holds no handles. -/
theorem Model.handles_defaults (model : Model) : Value.handlesFields model.defaults = [] := by
  refine Value.handlesFields_merge rfl ?_
  rw [Value.handlesFields_eq_nil]
  intro entry hmem
  obtain ⟨field, -, hfield⟩ := List.mem_filterMap.mp hmem
  obtain ⟨value, -, rfl⟩ := Option.map_eq_some_iff.mp hfield
  exact Value.handles_ofJson value.json

namespace Store

/-- The rules for the host: defaults come from a declared model, and its own records hold no handles.
Otherwise it may call the store with any values and run any programs. -/
def HostAction.Allowed (action : HostAction) : Prop := action.Obeys Call.FromModel (fun r => r.handles = [])

theorem Call.FromModel.setsPlain {call : Call} (h : call.FromModel) : call.SetsPlain := by
  cases call with
  | define entity defaults =>
    obtain ⟨model, -, rfl⟩ := h
    exact model.handles_defaults
  | _ => trivial

/-- Every history that the rules allow keeps the store plain. -/
theorem Plain.afterActions {s : Store} (hs : Plain s) {actions : List HostAction}
    (hactions : ∀ action ∈ actions, action.Allowed) : Plain (s.afterActions actions) :=
  afterActions_invariant (fun _ _ hs hcall => hs.call hcall) setsPlain_query
    (fun _ _ hs hr => ⟨hs.heap.alloc hr, hs.defaults⟩) hs
    (fun action hmem => (hactions action hmem).imp (fun _ hcall => hcall.setsPlain) (fun _ hr => hr))

/-- **Stored records hold no handles.** After any history that the rules allow, failing programs included,
no handle stands at any depth in the fields of any record, whether it is a row or not. So records do not
hold each other in a circle, every value reaches finitely many records, and the walks over values depend
on these alone: JSON, text, the detached copy and equality are the same in every heap that has the same
records there. Nor does the bound on the depth of these walks cut anything off: they satisfy the equations
that have no bound. -/
theorem records_hold_no_handles (actions : List HostAction) (hactions : ∀ action ∈ actions, action.Allowed) :
    let heap := (empty.afterActions actions).heap
    (∀ h, (heap.get h).handles = []) ∧
      (∀ h, ¬ Relation.TransGen heap.Holds h h) ∧
      (∀ v, {h | heap.Reaches v h}.Finite) ∧
      (∀ other v, heap.SameFor other v →
        other.json v = heap.json v ∧ other.display v = heap.display v ∧
          other.detach v = heap.detach v ∧
          ∀ w, heap.SameFor other w → other.equal v w = heap.equal v w) ∧
      ∀ h, h.index < heap.size →
        heap.recordJson h = (heap.get h).jsonWith heap.recordJson ∧
          ∀ k, heap.same h k = (h == k || Record.eqWith heap.same (heap.get h) (heap.get k)) := by
  intro heap
  have hplain : heap.Plain := (plain_empty.afterActions hactions).heap
  refine ⟨hplain, hplain.acyclic, hplain.finite_reaches, ?_, ?_⟩
  · intro other v hv
    exact ⟨hplain.json_eq hv, hplain.display_eq hv, hplain.detach_eq hv, fun w hw => hplain.equal_eq hv hw⟩
  · intro h hlive
    exact ⟨Heap.recordJson_of_plain hlive (hplain h) _,
      fun k => Heap.same_of_plain hlive (hplain h) k _⟩

/-- A record is written into itself inside a list, and a program writes a list of all records into a new
one. Both fields are there, and no handle is. -/
theorem records_hold_no_handles_of_self :
    let users : Expr := .member (.identifier "db") "User"
    let all : Expr := .call (.member users "findAll") []
    let actions : List HostAction := [.call (.define "User" (Model.defaults ⟨"User", []⟩)),
      .call (.create "User" []), .call (.update "User" 1 [("me", .list [.record ⟨0⟩])]),
      .runBody (Scope.ofVars (Machine.withBuiltins [])) #[] 0
        [.expression (.call (.member users "create") [.object [("all", all)]])],
      .hold ⟨7, .empty⟩]
    let heap := (empty.afterActions actions).heap
    (∀ action ∈ actions, action.Allowed) ∧
      (heap.get ⟨0⟩).fields.names = ["me"] ∧ (heap.get ⟨1⟩).fields.names = ["all"] ∧
      ∀ h, (heap.get h).handles = [] := by
  intro users all actions heap
  have hactions : ∀ action ∈ actions, action.Allowed := by
    simp only [actions, List.forall_mem_cons]
    exact ⟨⟨⟨"User", []⟩, rfl, rfl⟩, trivial, trivial, trivial, rfl, by simp⟩
  -- What the program does to a store: the names are looked up, and one record is created.
  have hdb : (Scope.ofVars (Machine.withBuiltins [])).get? Scope.root "db" = some .db := by cbv
  have hprogram : ∀ s : Store, HostAction.perform s (.runBody (Scope.ofVars (Machine.withBuiltins [])) #[] 0
      [.expression (.call (.member users "create") [.object [("all", all)]])]) =
        (s.create "User" [("all", .list ((s.findAll "User" none).map .record))]).2 := by
    intro s
    simp only [HostAction.perform, Machine.runBody, Machine.runBlock, Stmt.runFrom, Stmt.run, Machine.eval, users,
      all, Expr.run_call, Expr.run_member, Expr.run_identifier, Expr.run_evalAll_cons, Expr.run_evalAll_nil,
      Expr.run_object, Expr.run_evalFields_cons, Expr.run_evalFields_nil, hdb]
    rfl
  have hheap : heap = (HostAction.perform ((empty.afterActions (actions.take 3)).create "User"
      [("all", .list (((empty.afterActions (actions.take 3)).findAll "User" none).map .record))]).2
      (.hold ⟨7, .empty⟩)).heap := by
    rw [← hprogram]
    rfl
  refine ⟨hactions, ?_, ?_, (records_hold_no_handles actions hactions).1⟩
  · rw [hheap]
    rfl
  · rw [hheap]
    rfl

end Store

end ServiceEngine
