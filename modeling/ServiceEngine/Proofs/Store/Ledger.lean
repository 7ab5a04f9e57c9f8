import Mathlib
import ServiceEngine.Store.Basic

/-!
# The ledger of ids

`Store.Call` lists the calls that a store takes, whoever makes them, and `Store.performAll` is the store
after a list of them. Beside the store stands the ledger: what every `create` so far has given out.
`Store.Numbered` ties the table of one entity to what was given out for it, and `Store.Ledger` says the same
of all tables. Every call keeps both:

- most calls only drop rows or leave them alone (`Store.Thins`), which cannot break them;
- `create` adds one row with the next id and one line to the ledger.
-/

namespace ServiceEngine

/-! ## Records in the heap -/

namespace Heap

/-- A new record is found under its handle, and nothing else has changed. -/
theorem get_alloc (heap : Heap) (r : Record) (h : Handle) :
    (heap.alloc r).2.get h = if h.index = heap.size then r else heap.get h := by
  by_cases heq : h.index = heap.size
  · simp [alloc, get, size, heq]
  · unfold size at heq
    simp [alloc, get, size, Array.getD_eq_getD_getElem?, Array.getElem?_push, heq]

theorem get_alloc_of_lt (heap : Heap) (r : Record) {h : Handle} (hlt : h.index < heap.size) :
    (heap.alloc r).2.get h = heap.get h := by
  rw [get_alloc, if_neg (by omega)]

theorem get_alloc_self (heap : Heap) (r : Record) : (heap.alloc r).2.get (heap.alloc r).1 = r := by
  rw [get_alloc]
  exact if_pos rfl

theorem size_alloc (heap : Heap) (r : Record) : (heap.alloc r).2.size = heap.size + 1 := by
  simp [alloc, size]

/-- A record that is replaced is found under its handle, if the handle was good. -/
theorem get_set (heap : Heap) (h k : Handle) (r : Record) :
    (heap.set h r).get k = if h = k ∧ h.index < heap.size then r else heap.get k := by
  obtain ⟨i⟩ := h
  obtain ⟨j⟩ := k
  unfold set get size
  simp only [Array.getD_eq_getD_getElem?, Array.getElem?_setIfInBounds, Handle.mk.injEq]
  by_cases hij : i = j
  · subst hij
    by_cases hlt : i < heap.records.size <;> simp [hlt]
  · simp [hij]

theorem size_set (heap : Heap) (h : Handle) (r : Record) : (heap.set h r).size = heap.size := by
  simp [set, size]

/-- A record that is replaced by one with its id has kept its id, as have all others. -/
theorem id_get_set (heap : Heap) (h k : Handle) (r : Record) (hid : r.id = (heap.get h).id) :
    ((heap.set h r).get k).id = (heap.get k).id := by
  rw [get_set]
  split
  case isTrue hk => rw [hid, hk.1]
  case isFalse => rfl

end Heap

namespace Store

/-! ## Calls -/

/-- A call of the store. -/
inductive Call where
  | define (entity : String) (defaults : FieldMap Value)
  | create (entity : String) (fields : Fields Value)
  | findAll (entity : String) (filter : Option Filter)
  | find (entity : String) (filter : Filter)
  | update (entity : String) (id : UInt64) (patch : Fields Value)
  | delete (entity : String) (target : Target)
  | count (entity : String)

/-- What a `create` has given out. -/
structure Issue where
  entity : String
  record : Handle
  id : UInt64

namespace Call

/-- The store after a call. A call that only looks, or finds nothing to update, leaves it alone. -/
def perform (s : Store) : Call → Store
  | .define entity defaults => s.define entity defaults
  | .create entity fields => (s.create entity fields).2
  | .findAll _ _ => s
  | .find _ _ => s
  | .update entity id patch =>
    match s.update entity id patch with
    | .ok (_, s) => s
    | .error _ => s
  | .delete entity target => (s.delete entity target).2
  | .count _ => s

/-- What a call gives out: the handle and the id of a new record, and nothing otherwise. -/
def issues (s : Store) : Call → List Issue
  | .create entity fields =>
    let (h, s) := s.create entity fields
    [⟨entity, h, (s.heap.get h).id⟩]
  | _ => []

end Call

def performAll (s : Store) (calls : List Call) : Store := calls.foldl Call.perform s

def issuesAll (s : Store) : List Call → List Issue
  | [] => []
  | call :: rest => call.issues s ++ (call.perform s).issuesAll rest

/-- What has been given out for an entity. -/
def issuesOf (issues : List Issue) (entity : String) : List Issue :=
  issues.filter (fun issue => issue.entity = entity)

/-- The id of the record of a handle. -/
def idOf (s : Store) (h : Handle) : Nat := (s.heap.get h).id.toNat

/-! ## The invariant -/

/-- The table of an entity agrees with what has been given out for it. -/
structure Numbered (s : Store) (entity : String) (issued : List Issue) : Prop where
  lastId_eq : (s.table entity).lastId.toNat = issued.length
  ids_eq : issued.map (fun issue => issue.id.toNat) = List.range' 1 issued.length
  exist : ∀ h ∈ s.rows entity, h.index < s.heap.size
  ascending : (s.rows entity).Pairwise (fun a b => s.idOf a < s.idOf b)
  bounded : ∀ h ∈ s.rows entity, 1 ≤ s.idOf h ∧ s.idOf h ≤ (s.table entity).lastId.toNat

/-- The tables of a store agree with what has been given out. -/
structure Ledger (s : Store) (issues : List Issue) : Prop where
  lastId_eq : ∀ entity, (s.table entity).lastId.toNat = (issuesOf issues entity).length
  ids_eq : ∀ entity, (issuesOf issues entity).map (fun issue => issue.id.toNat) =
    List.range' 1 (issuesOf issues entity).length
  exist : ∀ entity, ∀ h ∈ s.rows entity, h.index < s.heap.size
  ascending : ∀ entity, (s.rows entity).Pairwise (fun a b => s.idOf a < s.idOf b)
  bounded : ∀ entity, ∀ h ∈ s.rows entity, 1 ≤ s.idOf h ∧ s.idOf h ≤ (s.table entity).lastId.toNat
  apart : ∀ entity other, entity ≠ other → ∀ h ∈ s.rows entity, h ∉ s.rows other
  hasTable : ∀ entity, s.tables.contains entity = true ↔ issuesOf issues entity ≠ []

/-- A ledger says of every entity what `Numbered` says of one. -/
theorem Ledger.numbered {s : Store} {issues : List Issue} (hs : Ledger s issues) (entity : String) :
    Numbered s entity (issuesOf issues entity) :=
  ⟨hs.lastId_eq entity, hs.ids_eq entity, hs.exist entity, hs.ascending entity, hs.bounded entity⟩

theorem ledger_of_numbered {s : Store} {issues : List Issue}
    (hs : ∀ entity, Numbered s entity (issuesOf issues entity))
    (hapart : ∀ entity other, entity ≠ other → ∀ h ∈ s.rows entity, h ∉ s.rows other)
    (htable : ∀ entity, s.tables.contains entity = true ↔ issuesOf issues entity ≠ []) : Ledger s issues :=
  ⟨fun entity => (hs entity).lastId_eq, fun entity => (hs entity).ids_eq, fun entity => (hs entity).exist,
    fun entity => (hs entity).ascending, fun entity => (hs entity).bounded, hapart, htable⟩

/-- No more is given out for an entity than there are ids. -/
theorem Numbered.length_lt {s : Store} {entity : String} {issued : List Issue}
    (hs : Numbered s entity issued) : issued.length < UInt64.size := by
  rw [← hs.lastId_eq]
  exact UInt64.toNat_lt_size _

theorem numbered_empty (entity : String) : Numbered empty entity [] := by
  refine ⟨rfl, rfl, ?_, List.Pairwise.nil, ?_⟩
  · intro h hmem
    cases hmem
  · intro h hmem
    cases hmem

theorem ledger_empty : Ledger empty [] := by
  refine ledger_of_numbered numbered_empty ?_ ?_
  · intro entity other _ h hmem
    cases hmem
  · intro entity
    simp [empty, FieldMap.contains, issuesOf]

/-! ## Calls that make no record -/

/-- A store that has kept its tables, its counters and its ids, and may have dropped rows. -/
structure Thins (s s' : Store) : Prop where
  rows : ∀ entity, (s'.rows entity).Sublist (s.rows entity)
  lastId_eq : ∀ entity, (s'.table entity).lastId = (s.table entity).lastId
  contains_eq : ∀ entity, s'.tables.contains entity = s.tables.contains entity
  size_le : s.heap.size ≤ s'.heap.size
  idOf_eq : ∀ h : Handle, h.index < s.heap.size → s'.idOf h = s.idOf h

theorem Thins.refl (s : Store) : Thins s s :=
  ⟨fun _ => List.Sublist.refl _, fun _ => rfl, fun _ => rfl, le_refl _, fun _ _ => rfl⟩

/-- Dropping rows cannot break the agreement with what was given out. -/
theorem Thins.numbered {s s' : Store} {entity : String} {issued : List Issue} (h : Thins s s')
    (hs : Numbered s entity issued) : Numbered s' entity issued := by
  -- Rows that are left were rows before, so they exist and have kept their ids.
  have hold : ∀ k ∈ s'.rows entity, k ∈ s.rows entity := fun k hk => (h.rows entity).subset hk
  have hids : ∀ k ∈ s'.rows entity, s'.idOf k = s.idOf k :=
    fun k hk => h.idOf_eq k (hs.exist k (hold k hk))
  refine ⟨?_, hs.ids_eq, ?_, ?_, ?_⟩
  · rw [h.lastId_eq, hs.lastId_eq]
  · intro k hk
    exact (hs.exist k (hold k hk)).trans_le h.size_le
  · refine (hs.ascending.sublist (h.rows entity)).imp_of_mem ?_
    intro a b ha hb hlt
    rwa [hids a ha, hids b hb]
  · intro k hk
    rw [hids k hk, h.lastId_eq]
    exact hs.bounded k (hold k hk)

theorem Thins.ledger {s s' : Store} {issues : List Issue} (h : Thins s s') (hs : Ledger s issues) :
    Ledger s' issues := by
  refine ledger_of_numbered (fun entity => h.numbered (hs.numbered entity)) ?_ ?_
  · intro entity other hne k hk hk'
    exact hs.apart entity other hne k ((h.rows entity).subset hk) ((h.rows other).subset hk')
  · intro entity
    rw [h.contains_eq]
    exact hs.hasTable entity

theorem thins_define (s : Store) (entity : String) (defaults : FieldMap Value) :
    Thins s (s.define entity defaults) :=
  ⟨fun _ => List.Sublist.refl _, fun _ => rfl, fun _ => rfl, le_refl _, fun _ _ => rfl⟩

theorem thins_alloc (s : Store) (r : Record) : Thins s { s with heap := (s.heap.alloc r).2 } := by
  refine ⟨fun _ => List.Sublist.refl _, fun _ => rfl, fun _ => rfl, ?_, ?_⟩
  · simp only [Heap.size_alloc]
    omega
  · intro h hlt
    unfold idOf
    rw [Heap.get_alloc_of_lt s.heap r hlt]

/-- **What an update does**: it writes the patch, detached, into the row with the id, and notes it. -/
theorem update_eq_ok_iff {s s' : Store} {entity : String} {id : UInt64} {patch : Fields Value} {h : Handle} :
    s.update entity id patch = .ok (h, s') ↔
      s.row? entity id = some h ∧
        { s with heap := s.heap.set h ((s.heap.get h).merge (s.heap.detachFields patch)) }.emit
          entity .updated h = s' := by
  unfold update
  cases s.row? entity id with
  | none => simp
  | some row =>
    simp only [Except.ok.injEq, Prod.mk.injEq, Option.some.injEq]
    refine and_congr_right ?_
    rintro rfl
    rfl

theorem thins_update {s s' : Store} {entity : String} {id : UInt64} {patch : Fields Value} {h : Handle}
    (hupdate : s.update entity id patch = .ok (h, s')) : Thins s s' := by
  obtain ⟨-, rfl⟩ := update_eq_ok_iff.mp hupdate
  refine ⟨fun _ => List.Sublist.refl _, fun _ => rfl, fun _ => rfl, ?_, ?_⟩
  · simp [emit, Heap.size_set]
  -- A patch is written into the fields; the id of the record stays.
  · intro k _
    exact congrArg UInt64.toNat (Heap.id_get_set s.heap h k _ rfl)

/-- Noting events touches neither records nor tables. -/
theorem foldl_emit (s : Store) (entity : String) (kind : EventKind) (handles : List Handle) :
    (handles.foldl (fun s h => s.emit entity kind h) s).heap = s.heap ∧
      (handles.foldl (fun s h => s.emit entity kind h) s).tables = s.tables := by
  induction handles generalizing s with
  | nil => exact ⟨rfl, rfl⟩
  | cons h rest ih => exact ih (s.emit entity kind h)

/-- The rows that a delete leaves. -/
def kept (s : Store) (entity : String) : Target → List Handle
  | .id id => (s.rows entity).eraseP (fun h => (s.heap.get h).id == id)
  | .matching filter => (s.rows entity).filter (fun h => !s.passes filter h)

theorem kept_sublist (s : Store) (entity : String) (target : Target) :
    (s.kept entity target).Sublist (s.rows entity) := by
  cases target with
  | id id => exact List.eraseP_sublist
  | matching filter => exact List.filter_sublist

/-- What a delete does to an entity that has a table. -/
theorem delete_of_table {s : Store} {entity : String} {t : Table} (target : Target)
    (htable : s.tables.get? entity = some t) :
    (s.delete entity target).2 =
      (s.removed entity target).foldl (fun s h => s.emit entity .deleted h)
        { s with tables := s.tables.insert entity { t with rows := s.kept entity target } } := by
  have hrows : s.rows entity = t.rows := by simp [rows, table, htable]
  cases target with
  | id id => simp only [delete, htable, kept, hrows]
  | matching filter => simp only [delete, htable, kept, hrows]

/-- A delete writes the rows that are left into the table of the entity, if there is one, and nothing
else. -/
theorem delete_spec (s : Store) (entity : String) (target : Target) :
    (s.delete entity target).2.heap = s.heap ∧
      ∀ other, (s.delete entity target).2.tables.get? other =
        (s.tables.get? other).map (fun t =>
          if entity = other then { t with rows := s.kept entity target } else t) := by
  cases htable : s.tables.get? entity with
  | none =>
    simp only [delete, htable, true_and]
    intro other
    -- Without a table there is nothing to write for this entity, and the others are not meant.
    by_cases heq : entity = other
    · subst heq
      simp [htable]
    · simp [heq]
  | some t =>
    rw [delete_of_table target htable]
    obtain ⟨hheap, htables⟩ := foldl_emit _ entity .deleted (s.removed entity target)
    refine ⟨hheap, fun other => ?_⟩
    rw [htables, FieldMap.get?_insert]
    by_cases heq : entity = other
    · subst heq
      simp [htable]
    · simp [heq]

/-- A delete only drops rows. -/
theorem thins_delete (s : Store) (entity : String) (target : Target) :
    Thins s (s.delete entity target).2 := by
  obtain ⟨hheap, htables⟩ := delete_spec s entity target
  refine ⟨?_, ?_, ?_, ?_, ?_⟩
  · intro other
    unfold rows table
    rw [htables]
    -- Only the table of the entity has changed, and its rows are some of the old ones.
    by_cases heq : entity = other
    · subst heq
      cases htable : s.tables.get? entity with
      | none => simp
      | some t => simpa [rows, table, htable] using kept_sublist s entity target
    · simp [heq]
  · intro other
    unfold table
    rw [htables]
    by_cases heq : entity = other
    · cases s.tables.get? other <;> simp [heq]
    · simp [heq]
  · intro other
    rw [FieldMap.contains, FieldMap.contains, htables, Option.isSome_map]
  · rw [hheap]
  · intro h _
    unfold idOf
    rw [hheap]

/-! ## A new record -/

/-- A new record takes the next id of its table and a row at the end; other tables stay. -/
theorem table_create (s : Store) (entity other : String) (fields : Fields Value) :
    (s.create entity fields).2.table other =
      if entity = other then ⟨(s.table entity).lastId + 1, s.rows entity ++ [⟨s.heap.size⟩]⟩
      else s.table other := by
  unfold create table emit
  simp only [FieldMap.get?_insert]
  by_cases h : entity = other <;> simp [h, Heap.alloc]

theorem contains_create (s : Store) (entity other : String) (fields : Fields Value) :
    (s.create entity fields).2.tables.contains other =
      (decide (entity = other) || s.tables.contains other) :=
  FieldMap.contains_insert ..

theorem rows_create (s : Store) (entity other : String) (fields : Fields Value) :
    (s.create entity fields).2.rows other =
      s.rows other ++ if entity = other then [⟨s.heap.size⟩] else [] := by
  rw [rows, table_create]
  by_cases h : entity = other
  · simp [h]
  · simp [h, rows]

/-- The rows after a `create` are the old ones and, in its table, the new record. -/
theorem mem_rows_create {s : Store} {entity other : String} {fields : Fields Value} {h : Handle} :
    h ∈ (s.create entity fields).2.rows other ↔
      h ∈ s.rows other ∨ entity = other ∧ h = ⟨s.heap.size⟩ := by
  rw [rows_create, List.mem_append]
  by_cases heq : entity = other <;> simp [heq]

theorem size_create (s : Store) (entity : String) (fields : Fields Value) :
    (s.create entity fields).2.heap.size = s.heap.size + 1 := Heap.size_alloc ..

theorem idOf_create_of_lt (s : Store) (entity : String) (fields : Fields Value) {h : Handle}
    (hlt : h.index < s.heap.size) : (s.create entity fields).2.idOf h = s.idOf h :=
  congrArg (fun r : Record => r.id.toNat) (Heap.get_alloc_of_lt s.heap _ hlt)

theorem idOf_create_self (s : Store) (entity : String) (fields : Fields Value) :
    (s.create entity fields).2.idOf ⟨s.heap.size⟩ = ((s.table entity).lastId + 1).toNat :=
  congrArg (fun r : Record => r.id.toNat) (Heap.get_alloc_self s.heap _)

theorem issues_create (s : Store) (entity : String) (fields : Fields Value) :
    (Call.create entity fields).issues s = [⟨entity, ⟨s.heap.size⟩, (s.table entity).lastId + 1⟩] := by
  have hget : (s.create entity fields).2.heap.get ⟨s.heap.size⟩ =
      ⟨(s.table entity).lastId + 1, _⟩ := Heap.get_alloc_self s.heap _
  exact congrArg (fun r : Record => [Issue.mk entity ⟨s.heap.size⟩ r.id]) hget

theorem issuesOf_append (issues more : List Issue) (entity : String) :
    issuesOf (issues ++ more) entity = issuesOf issues entity ++ issuesOf more entity :=
  List.filter_append ..

/-- The line of a `create` stands in the ledger of its entity only. -/
theorem issuesOf_create (s : Store) (issues : List Issue) (entity other : String)
    (fields : Fields Value) :
    issuesOf (issues ++ (Call.create entity fields).issues s) other = issuesOf issues other ++
      if entity = other then [⟨entity, ⟨s.heap.size⟩, (s.table entity).lastId + 1⟩] else [] := by
  rw [issuesOf_append, issues_create]
  by_cases heq : entity = other <;> simp [issuesOf, heq]

/-- The next id, as a number, as long as the counter does not run out. -/
theorem toNat_succ {id : UInt64} (h : id.toNat + 1 < UInt64.size) : (id + 1).toNat = id.toNat + 1 := by
  rw [UInt64.toNat_add]
  exact Nat.mod_eq_of_lt h

/-- A record of another entity is no concern of a table. -/
theorem Numbered.create_other {s : Store} {entity other : String} {issued : List Issue}
    (hs : Numbered s other issued) (hne : entity ≠ other) (fields : Fields Value) :
    Numbered (s.create entity fields).2 other issued := by
  have htable : (s.create entity fields).2.table other = s.table other := by rw [table_create, if_neg hne]
  have hrows : (s.create entity fields).2.rows other = s.rows other := congrArg Table.rows htable
  -- The rows of the other table existed before, so their records are the same.
  have hids : ∀ h ∈ s.rows other, (s.create entity fields).2.idOf h = s.idOf h :=
    fun h hmem => idOf_create_of_lt s entity fields (hs.exist h hmem)
  refine ⟨?_, hs.ids_eq, ?_, ?_, ?_⟩
  · rw [htable, hs.lastId_eq]
  · intro h hmem
    rw [hrows] at hmem
    rw [size_create]
    exact (hs.exist h hmem).trans (Nat.lt_succ_self _)
  · rw [hrows]
    refine hs.ascending.imp_of_mem ?_
    intro a b ha hb hlt
    rwa [hids a ha, hids b hb]
  · intro h hmem
    rw [hrows] at hmem
    rw [hids h hmem, htable]
    exact hs.bounded h hmem

/-- **A new record keeps its table numbered**: it has the next id and a row at the end. -/
theorem Numbered.create_self {s : Store} {entity : String} {issued : List Issue}
    (hs : Numbered s entity issued) (fields : Fields Value) (hbound : issued.length + 1 < UInt64.size) :
    Numbered (s.create entity fields).2 entity
      (issued ++ [⟨entity, ⟨s.heap.size⟩, (s.table entity).lastId + 1⟩]) := by
  -- The bound keeps the counter from running over, so the new id is new as a number too.
  have hnext : ((s.table entity).lastId + 1).toNat = (s.table entity).lastId.toNat + 1 := by
    apply toNat_succ
    rwa [hs.lastId_eq]
  have hlast :
      ((s.create entity fields).2.table entity).lastId.toNat = (s.table entity).lastId.toNat + 1 := by
    rw [table_create, if_pos rfl, hnext]
  have hold : ∀ h ∈ s.rows entity, (s.create entity fields).2.idOf h = s.idOf h :=
    fun h hmem => idOf_create_of_lt s entity fields (hs.exist h hmem)
  have hnew : (s.create entity fields).2.idOf ⟨s.heap.size⟩ = (s.table entity).lastId.toNat + 1 := by
    rw [idOf_create_self, hnext]
  refine ⟨?_, ?_, ?_, ?_, ?_⟩
  · rw [hlast, hs.lastId_eq, List.length_append, List.length_singleton]
  -- The ids given out are 1, 2, and so on; the new one continues the row.
  · simp [hs.ids_eq, hnext, hs.lastId_eq, List.range'_1_concat, Nat.add_comm 1]
  · intro h hmem
    rw [size_create]
    rcases mem_rows_create.mp hmem with hmem | ⟨-, rfl⟩
    · exact (hs.exist h hmem).trans (Nat.lt_succ_self _)
    · exact Nat.lt_succ_self _
  -- The new id is greater than the ids of all rows so far.
  · rw [rows_create, if_pos rfl]
    refine List.pairwise_append.mpr ⟨?_, List.pairwise_singleton _ _, ?_⟩
    · refine hs.ascending.imp_of_mem ?_
      intro a b ha hb hlt
      rwa [hold a ha, hold b hb]
    · intro a ha b hb
      rw [List.mem_singleton.mp hb, hnew, hold a ha]
      exact Nat.lt_succ_of_le (hs.bounded a ha).2
  · intro h hmem
    rw [hlast]
    rcases mem_rows_create.mp hmem with hmem | ⟨-, rfl⟩
    · rw [hold h hmem]
      exact ⟨(hs.bounded h hmem).1, (hs.bounded h hmem).2.trans (Nat.le_succ _)⟩
    · rw [hnew]
      exact ⟨Nat.le_add_left 1 _, le_refl _⟩

/-- A `create` keeps every table numbered, its own and the others. -/
theorem numbered_create {s : Store} {issues : List Issue} {other : String}
    (hs : Numbered s other (issuesOf issues other)) (entity : String) (fields : Fields Value)
    (hbound : (issuesOf (issues ++ (Call.create entity fields).issues s) other).length < UInt64.size) :
    Numbered (s.create entity fields).2 other
      (issuesOf (issues ++ (Call.create entity fields).issues s) other) := by
  rw [issuesOf_create] at hbound ⊢
  by_cases heq : entity = other
  · subst heq
    rw [if_pos rfl, List.length_append] at hbound
    rw [if_pos rfl]
    exact hs.create_self fields hbound
  · rw [if_neg heq, List.append_nil]
    exact hs.create_other heq fields

/-- **A new record keeps the ledger**: it has the next id, a handle of its own and a row at the end. -/
theorem ledger_create {s : Store} {issues : List Issue} (hs : Ledger s issues) (entity : String)
    (fields : Fields Value)
    (hbound : (issuesOf (issues ++ (Call.create entity fields).issues s) entity).length < UInt64.size) :
    Ledger (s.create entity fields).2 (issues ++ (Call.create entity fields).issues s) := by
  -- The new handle lies behind all records, so it is no row of any table yet.
  have hfresh : ∀ other, (⟨s.heap.size⟩ : Handle) ∉ s.rows other :=
    fun other hmem => absurd (hs.exist other _ hmem) (lt_irrefl _)
  refine ledger_of_numbered ?_ ?_ ?_
  · intro other
    refine numbered_create (hs.numbered other) entity fields ?_
    by_cases heq : entity = other
    · exact heq ▸ hbound
    · rw [issuesOf_create, if_neg heq, List.append_nil]
      exact (hs.numbered other).length_lt
  -- A handle in two tables would be the new one in both, or an old one in both.
  · intro first second hne h hmem hmem'
    rcases mem_rows_create.mp hmem with hmem | ⟨rfl, rfl⟩ <;>
      rcases mem_rows_create.mp hmem' with hmem' | ⟨rfl, hnew⟩
    · exact hs.apart first second hne h hmem hmem'
    · exact hfresh first (hnew ▸ hmem)
    · exact hfresh second hmem'
    · exact hne rfl
  · intro other
    rw [contains_create, issuesOf_create]
    by_cases heq : entity = other
    · simp [heq]
    · simp [heq, hs.hasTable]

/-! ## Every call -/

/-- A call that makes no record drops rows at most. -/
theorem Call.thins (s : Store) (call : Call) (hnone : call.issues s = []) :
    Thins s (call.perform s) := by
  cases call with
  | define entity defaults => exact thins_define s entity defaults
  -- A `create` gives out an id.
  | create entity fields => simp [issues_create] at hnone
  | findAll entity filter => exact Thins.refl s
  | find entity filter => exact Thins.refl s
  | update entity id patch =>
    simp only [Call.perform]
    split
    · rename_i hupdate
      exact thins_update hupdate
    · exact Thins.refl s
  | delete entity target => exact thins_delete s entity target
  | count entity => exact Thins.refl s

/-- **Every call keeps a table numbered**, as long as its entity does not run out of ids. -/
theorem numbered_perform {s : Store} {issues : List Issue} {entity : String}
    (hs : Numbered s entity (issuesOf issues entity)) (call : Call)
    (hbound : (issuesOf (issues ++ call.issues s) entity).length < UInt64.size) :
    Numbered (call.perform s) entity (issuesOf (issues ++ call.issues s) entity) := by
  by_cases hnone : call.issues s = []
  · rw [hnone, List.append_nil]
    exact (call.thins s hnone).numbered hs
  · cases call with
    | create other fields => exact numbered_create hs other fields hbound
    | _ => exact absurd rfl hnone

/-- **Every call keeps the ledger.** -/
theorem ledger_perform {s : Store} {issues : List Issue} (hs : Ledger s issues) (call : Call)
    (hbound : ∀ entity, (issuesOf (issues ++ call.issues s) entity).length < UInt64.size) :
    Ledger (call.perform s) (issues ++ call.issues s) := by
  by_cases hnone : call.issues s = []
  · rw [hnone, List.append_nil]
    exact (call.thins s hnone).ledger hs
  · cases call with
    | create entity fields => exact ledger_create hs entity fields (hbound entity)
    | _ => exact absurd rfl hnone

/-! ## Handles -/

/-- Every row is a record that was given out for its table, under the id that it has; and no record was
given out twice. This needs no bound on the number of records. -/
structure Issued (s : Store) (issues : List Issue) : Prop where
  rows : ∀ entity, ∀ h ∈ s.rows entity, ⟨entity, h, (s.heap.get h).id⟩ ∈ issues
  exist : ∀ issue ∈ issues, issue.record.index < s.heap.size
  nodup : (issues.map Issue.record).Nodup

theorem issued_empty : Issued empty [] := by
  refine ⟨?_, ?_, List.nodup_nil⟩
  · intro entity h hmem
    cases hmem
  · intro issue hmem
    cases hmem

/-- What was given out for one table is not given out for another. -/
theorem Issued.entity_eq {s : Store} {issues : List Issue} (hs : Issued s issues) {entity other : String}
    {h : Handle} {id id' : UInt64} (hissue : ⟨entity, h, id⟩ ∈ issues) (hother : ⟨other, h, id'⟩ ∈ issues) :
    entity = other := by
  have hsame := List.inj_on_of_nodup_map hs.nodup hissue hother rfl
  exact congrArg Issue.entity hsame

/-- What was given out stays given out when rows are dropped. -/
theorem Thins.issued {s s' : Store} {issues : List Issue} (h : Thins s s') (hs : Issued s issues) :
    Issued s' issues := by
  refine ⟨?_, ?_, hs.nodup⟩
  · intro entity k hk
    have hissue := hs.rows entity k ((h.rows entity).subset hk)
    have hid : (s'.heap.get k).id = (s.heap.get k).id :=
      UInt64.toNat_inj.mp (h.idOf_eq k (hs.exist _ hissue))
    rwa [hid]
  · intro issue hmem
    exact (hs.exist issue hmem).trans_le h.size_le

/-- A `create` gives out a handle that is new. -/
theorem issued_create {s : Store} {issues : List Issue} (hs : Issued s issues) (entity : String)
    (fields : Fields Value) :
    Issued (s.create entity fields).2 (issues ++ (Call.create entity fields).issues s) := by
  rw [issues_create]
  refine ⟨?_, ?_, ?_⟩
  -- An old row has kept its id, and the new row has the id that was given out.
  · intro other h hmem
    rcases mem_rows_create.mp hmem with hmem | ⟨rfl, rfl⟩
    · have hissue := hs.rows other h hmem
      have hget : (s.create entity fields).2.heap.get h = s.heap.get h :=
        Heap.get_alloc_of_lt s.heap _ (hs.exist _ hissue)
      rw [hget]
      exact List.mem_append_left _ hissue
    · have hid : ((s.create entity fields).2.heap.get ⟨s.heap.size⟩).id = (s.table entity).lastId + 1 :=
        UInt64.toNat_inj.mp (idOf_create_self s entity fields)
      rw [hid]
      exact List.mem_append_right _ (List.mem_singleton_self _)
  · intro issue hmem
    rw [size_create]
    rcases List.mem_append.mp hmem with hmem | hmem
    · exact (hs.exist issue hmem).trans (Nat.lt_succ_self _)
    · rw [List.mem_singleton.mp hmem]
      exact Nat.lt_succ_self _
  -- The handle of a new record lies behind all handles that were given out before.
  · rw [List.map_append, List.map_singleton]
    refine List.nodup_append.mpr ⟨hs.nodup, List.nodup_singleton _, ?_⟩
    intro h hold k hnew heq
    obtain ⟨issue, hmem, rfl⟩ := List.mem_map.mp hold
    rw [List.mem_singleton] at hnew
    have hlt := hs.exist issue hmem
    rw [heq, hnew] at hlt
    exact lt_irrefl _ hlt

/-- Every call keeps the account of handles, with no bound on their number. -/
theorem issued_perform {s : Store} {issues : List Issue} (hs : Issued s issues) (call : Call) :
    Issued (call.perform s) (issues ++ call.issues s) := by
  by_cases hnone : call.issues s = []
  · rw [hnone, List.append_nil]
    exact (call.thins s hnone).issued hs
  · cases call with
    | create entity fields => exact issued_create hs entity fields
    | _ => exact absurd rfl hnone

/-! ## Parts of what is given out -/

/-- What is given out in part is not more than what is given out in the end. -/
theorem length_issuesOf_le_append (issues more : List Issue) (entity : String) :
    (issuesOf issues entity).length ≤ (issuesOf (issues ++ more) entity).length := by
  rw [issuesOf_append, List.length_append]
  exact Nat.le_add_right _ _

theorem length_issuesOf_lt_of_append {issues more : List Issue}
    (hbound : ∀ entity, (issuesOf (issues ++ more) entity).length < UInt64.size) (entity : String) :
    (issuesOf issues entity).length < UInt64.size :=
  (length_issuesOf_le_append issues more entity).trans_lt (hbound entity)

end Store

end ServiceEngine
