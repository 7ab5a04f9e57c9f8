import Mathlib
import ServiceEngine.Proofs.Store.Plain
import ServiceEngine.Proofs.Store.Queries

/-!
# Rows searched for by their own fields

A row is an argument like any other, so a program may ask for all rows that have the fields of a given row.
One expects the row itself among the answers. What can go wrong is the name `id`: a filter compares it with
the id that the row was given, not with what its fields hold. Neither the arguments of a `create` nor a patch
can write a field `id`, but a model may declare a default for it, and this default is stored.

1. `Store.Declared` is the invariant: a value under `id` in the fields of a row is a declared default. Every
   call keeps it, and so does every history (`Store.Declared.afterActions`).
2. A row is found by its own fields just if the value under `id`, if there is any, equals its id
   (`Store.mem_findAll_own_iff`).
-/

namespace ServiceEngine.Store

/-! ## Where a field `id` comes from -/

section

variable {declared : String → Value → Prop}

/-- A value that the fields have under `id` was declared for the entity. -/
def Keyed (declared : String → Value → Prop) (entity : String) (fields : FieldMap Value) : Prop :=
  ∀ v, fields.get? "id" = some v → declared entity v

theorem keyed_empty (declared : String → Value → Prop) (entity : String) : Keyed declared entity .empty := by
  intro v hv
  cases hv

theorem Keyed.merge {entity : String} {fields : FieldMap Value} (h : Keyed declared entity fields)
    (more : Fields Value) : Keyed declared entity (fields.merge (more.erase "id")) := by
  intro v hv
  have hsame : (fields.merge (more.erase "id")).get? "id" = fields.get? "id" :=
    Fields.get?_merge_of_not_mem _ (Fields.not_mem_names_erase more "id")
  exact h v (hsame ▸ hv)

/-- Defaults and rows have the fields `id` that were declared for their entity, and no others. -/
structure Declared (declared : String → Value → Prop) (s : Store) : Prop where
  defaults : ∀ entity fields, s.defaults.get? entity = some fields → Keyed declared entity fields
  exist : ∀ entity, ∀ h ∈ s.rows entity, h.index < s.heap.size
  rows : ∀ entity, ∀ h ∈ s.rows entity, Keyed declared entity (s.heap.get h).fields

theorem declared_empty (declared : String → Value → Prop) : Declared declared empty := by
  refine ⟨?_, ?_, ?_⟩
  · intro entity fields hget
    cases hget
  · intro entity h hmem
    cases hmem
  · intro entity h hmem
    cases hmem

/-- The call sets no default for `id` but a declared one. -/
def Call.Declares (declared : String → Value → Prop) : Call → Prop
  | .define entity defaults => Keyed declared entity defaults
  | _ => True

/-- A declared default is declared, and the others were before. -/
theorem Declared.define {s : Store} (hs : Declared declared s) {entity : String} {defaults : FieldMap Value}
    (hdefaults : Keyed declared entity defaults) : Declared declared (s.define entity defaults) := by
  refine ⟨?_, hs.exist, hs.rows⟩
  intro other fields hget
  rw [Store.define, FieldMap.get?_insert] at hget
  by_cases heq : entity = other
  · rw [if_pos heq, Option.some.injEq] at hget
    exact heq ▸ hget ▸ hdefaults
  · rw [if_neg heq] at hget
    exact hs.defaults other fields hget

/-- A new row has the `id` of the defaults, if they have one, and none of its own. -/
theorem Declared.create {s : Store} (hs : Declared declared s) (entity : String) (fields : Fields Value) :
    Declared declared (s.create entity fields).2 := by
  have hdefaults : Keyed declared entity ((s.defaults.get? entity).getD .empty) := by
    cases hget : s.defaults.get? entity with
    | none => exact keyed_empty declared entity
    | some defaults => exact hs.defaults entity defaults hget
  refine ⟨hs.defaults, ?_, ?_⟩
  · intro other h hmem
    rw [size_create]
    rcases mem_rows_create.mp hmem with hmem | ⟨-, rfl⟩
    · exact (hs.exist other h hmem).trans (Nat.lt_succ_self _)
    · exact Nat.lt_succ_self _
  · intro other h hmem
    rcases mem_rows_create.mp hmem with hmem | ⟨rfl, rfl⟩
    -- A row that was there before is an older record.
    · have hget : (s.create entity fields).2.heap.get h = s.heap.get h :=
        Heap.get_alloc_of_lt s.heap _ (hs.exist other h hmem)
      rw [hget]
      exact hs.rows other h hmem
    -- The new row has the defaults, with the given fields over them.
    · have hget : (s.create entity fields).2.heap.get ⟨s.heap.size⟩ = _ := get_create s entity fields
      rw [hget]
      exact hdefaults.merge _

/-- An update cannot write a field `id`. -/
theorem Declared.update {s s' : Store} (hs : Declared declared s) {entity : String} {id : UInt64}
    {patch : Fields Value} {h : Handle} (hupdate : s.update entity id patch = .ok (h, s')) :
    Declared declared s' := by
  obtain ⟨-, rfl⟩ := update_eq_ok_iff.mp hupdate
  refine ⟨hs.defaults, ?_, ?_⟩
  · intro other k hmem
    exact (hs.exist other k hmem).trans_eq (Heap.size_set s.heap h _).symm
  · intro other k hmem
    have hold : Keyed declared other (s.heap.get k).fields := hs.rows other k hmem
    show Keyed declared other ((s.heap.set h _).get k).fields
    -- Only the updated row has changed, and the patch was written without its `id`.
    rw [Heap.get_set]
    split
    case isTrue hk =>
      rw [hk.1]
      exact hold.merge _
    case isFalse => exact hold

/-- A delete changes no defaults and no records. -/
theorem Declared.delete {s : Store} (hs : Declared declared s) (entity : String) (target : Target) :
    Declared declared (s.delete entity target).2 := by
  have hheap := (delete_spec s entity target).1
  have hrows : ∀ other, ∀ h ∈ (s.delete entity target).2.rows other, h ∈ s.rows other :=
    fun other h hmem => ((thins_delete s entity target).rows other).subset hmem
  refine ⟨?_, ?_, ?_⟩
  · rw [defaults_delete]
    exact hs.defaults
  · intro other h hmem
    rw [hheap]
    exact hs.exist other h (hrows other h hmem)
  · intro other h hmem
    rw [hheap]
    exact hs.rows other h (hrows other h hmem)

/-- **A call keeps what was declared.** -/
theorem Declared.call {s : Store} (hs : Declared declared s) {call : Call}
    (hcall : call.Declares declared) : Declared declared (call.perform s) := by
  cases call with
  | define entity defaults => exact hs.define hcall
  | create entity fields => exact hs.create entity fields
  | update entity id patch =>
    rw [Call.perform]
    cases hupdate : s.update entity id patch with
    | ok result => exact hs.update hupdate
    | error why => exact hs
  | delete entity target => exact hs.delete entity target
  | _ => exact hs

theorem declares_query (declared : String → Value → Prop) (entity : String) (query : Query) :
    (query.call entity).Declares declared := by
  cases query <;> trivial

/-- A record that the host makes for itself is no row. -/
theorem Declared.hold {s : Store} (hs : Declared declared s) (r : Record) :
    Declared declared { s with heap := (s.heap.alloc r).2 } := by
  refine ⟨hs.defaults, ?_, ?_⟩
  · intro entity h hmem
    have hlt := hs.exist entity h hmem
    rw [Heap.size_alloc]
    omega
  · intro entity h hmem
    have hget := Heap.get_alloc_of_lt s.heap r (hs.exist entity h hmem)
    rw [hget]
    exact hs.rows entity h hmem

/-- **A history keeps what was declared**, whatever programs it runs. -/
theorem Declared.afterActions {s : Store} (hs : Declared declared s) {actions : List HostAction}
    (hactions : ∀ action ∈ actions, action.Obeys (Call.Declares declared) (fun _ => True)) :
    Declared declared (s.afterActions actions) :=
  afterActions_invariant (fun _ _ hs hcall => hs.call hcall) (declares_query declared)
    (fun _ r hs _ => hs.hold r) hs hactions

end

/-! ## A row as its own filter -/

/-- A row passes the filter for its own fields just if the value under `id`, if they have one, is its id. -/
theorem mem_findAll_own_iff {s : Store} {entity : String} {row : Handle} (hrow : row ∈ s.rows entity)
    (hnan : Value.hasNaNFields (s.heap.get row).fields = false) :
    row ∈ s.findAll entity (some (.fields (s.heap.get row).fields)) ↔
      ∀ v, (s.heap.get row).fields.get? "id" = some v →
        s.heap.equal (s.heap.get row).idValue v = true := by
  rw [findAll, List.mem_filter, and_iff_right hrow, passes, Filter.holds, List.all_eq_true]
  constructor
  -- The filter asks for the id under the name `id`, whatever the fields hold there.
  · intro hall v hv
    have hid := hall ("id", v) (FieldMap.mem_iff_get?.mpr hv)
    rwa [Record.get?, if_pos rfl, Option.getD_some] at hid
  · intro hid entry hentry
    have hvalue : (s.heap.get row).fields.get? entry.1 = some entry.2 := FieldMap.mem_iff_get?.mp hentry
    by_cases hname : entry.1 = "id"
    · rw [Record.get?, if_pos hname, Option.getD_some]
      exact hid entry.2 (hname ▸ hvalue)
    -- Any other field is read back as it is stored.
    · rw [Record.get?, if_neg hname, hvalue, Option.getD_some, Heap.equal_self]
      exact Value.hasNaNFields_eq_false.mp hnan entry hentry

/-- Defaults come from a declared model. -/
def HostAction.FromModel (action : HostAction) : Prop := action.Obeys Call.FromModel (fun _ => True)

/-- A history declares a value for the field `id` of an entity: one of its models gives it as a default. -/
def DeclaresId (actions : List HostAction) (entity : String) (v : Value) : Prop :=
  ∃ model : Model, .call (.define entity model.defaults) ∈ actions ∧ model.name = entity ∧
    model.defaults.get? "id" = some v

/-- After a history whose defaults come from models, only these models declare an `id`. -/
theorem declared_afterActions {actions : List HostAction} (hactions : ∀ action ∈ actions, action.FromModel) :
    Declared (DeclaresId actions) (empty.afterActions actions) := by
  refine (declared_empty _).afterActions ?_
  intro action hmem
  cases action with
  | call made =>
    cases made with
    | define entity defaults =>
      obtain ⟨model, rfl, rfl⟩ := hactions _ hmem
      exact fun v hv => ⟨model, hmem, rfl, hv⟩
    | _ => trivial
  | _ => trivial

/-- **A row is found by its own fields** after any history in which no model of its entity declares a default
for `id`, as long as no NaN stands in them; these fields are what a program asks for that passes the row to
`findAll`. A default for `id` is stored in the row like any other, but a filter for `id` asks for the id that
the row was given; so with such a default the row is found just if the two are equal. -/
theorem row_found_by_own_fields (actions : List HostAction) (hactions : ∀ action ∈ actions, action.FromModel)
    (entity : String) (row : Handle) (hrow : row ∈ (empty.afterActions actions).rows entity)
    (hnan : Value.hasNaNFields ((empty.afterActions actions).heap.get row).fields = false) :
    let s := empty.afterActions actions
    let r := s.heap.get row
    Builtin.callOn s entity .findAll [.record row] =
        .ok (.list ((s.findAll entity (some (.fields r.fields))).map .record), s) ∧
      ((∀ v, ¬ DeclaresId actions entity v) → row ∈ s.findAll entity (some (.fields r.fields))) ∧
      (row ∈ s.findAll entity (some (.fields r.fields)) ↔
        ∀ v, r.fields.get? "id" = some v → s.heap.equal r.idValue v = true) := by
  intro s r
  have hkeyed : Keyed (DeclaresId actions) entity r.fields := (declared_afterActions hactions).rows entity row hrow
  have hfound := mem_findAll_own_iff hrow hnan
  refine ⟨rfl, ?_, hfound⟩
  intro hnone
  rw [hfound]
  intro v hv
  exact absurd (hkeyed v hv) (hnone v)

/-- A task gets its state by default and a list by an update that also tries to change its id; it is found by
its own fields. -/
theorem row_found_by_own_fields_of_update :
    let model : Model := ⟨"Task", [⟨"done", none, some ⟨.bool false, trivial⟩⟩]⟩
    let actions : List HostAction := [.call (.define "Task" model.defaults),
      .call (.create "Task" [("text", .str "x")]),
      .call (.update "Task" 1 [("id", .num 9), ("tags", .list [.num 2.5])])]
    let s := empty.afterActions actions
    (∀ action ∈ actions, action.FromModel) ∧ ⟨0⟩ ∈ s.rows "Task" ∧
      Value.hasNaNFields (s.heap.get ⟨0⟩).fields = false ∧
      (s.heap.get ⟨0⟩).fields.names = ["done", "tags", "text"] ∧
      (∀ v, ¬ DeclaresId actions "Task" v) ∧
      ⟨0⟩ ∈ s.findAll "Task" (some (.fields (s.heap.get ⟨0⟩).fields)) := by
  intro model actions s
  have hactions : ∀ action ∈ actions, action.FromModel := by
    simp only [actions, List.forall_mem_cons]
    exact ⟨⟨model, rfl, rfl⟩, trivial, trivial, by simp⟩
  have hrow : ⟨0⟩ ∈ s.rows "Task" := by decide
  have hnan : Value.hasNaNFields (s.heap.get ⟨0⟩).fields = false := by decide
  have hnone : ∀ v, ¬ DeclaresId actions "Task" v := by
    rintro v ⟨other, hmem, -, hv⟩
    have hdefaults : other.defaults = model.defaults := by simpa [actions] using hmem
    rw [hdefaults] at hv
    cases hv
  exact ⟨hactions, hrow, hnan, by decide, hnone,
    (row_found_by_own_fields actions hactions "Task" ⟨0⟩ hrow hnan).2.1 hnone⟩

/-- A model declares the text `x` as the default for `id`. Its first row has the id 1, its fields hold the
text, and so it is not found by them, though neither a NaN nor a handle stands in them. -/
theorem default_id_hides_row :
    let model : Model := ⟨"User", [⟨"id", none, some ⟨.string "x", trivial⟩⟩]⟩
    let s := empty.afterActions [.call (.define model.name model.defaults), .call (.create "User" [])]
    ⟨0⟩ ∈ s.rows "User" ∧ Value.hasNaNFields (s.heap.get ⟨0⟩).fields = false ∧
      (s.heap.get ⟨0⟩).handles = [] ∧
      ⟨0⟩ ∉ s.findAll "User" (some (.fields (s.heap.get ⟨0⟩).fields)) := by
  decide

end ServiceEngine.Store
