import Mathlib
import ServiceEngine.Proofs.Store.Copies
import ServiceEngine.Proofs.Store.Journal

/-!
# What rows may hold

A host makes records for itself, beside the tables, and these may hold handles of each other. What is written
into a row is copied one record deep, so the handles in a record of the host get into rows. There they stay
live, but they do no harm: no call ever writes into a record of the host.

1. In a heap that is founded on records of the host (`Heap.Founded`) all handles lead to these, and what they
   show is not changed by writing any other record (`Heap.Founded.recordJson_eq`).
2. `Store.Orderly` says this of the heap of a store, and that its rows are different records, none of them the
   host's. A call writes one record at most (`Store.Orderly.heap_perform`), and keeps this order.
3. So does every history in which the host does not put handles of rows into its own records
   (`Store.Reached.orderly`).
-/

namespace ServiceEngine

open Relation (TransGen ReflTransGen)

/-! ## Heaps -/

namespace Heap

/-- All handles that records hold are in `own`, and the records of these hold older ones among them. -/
structure Founded (heap : Heap) (own : List Handle) : Prop where
  holds : ∀ h k, heap.Holds h k → k ∈ own
  older : ∀ h ∈ own, ∀ k, heap.Holds h k → k.index < h.index
  exist : ∀ k ∈ own, k.index < heap.size

theorem founded_empty : Heap.empty.Founded [] := by
  refine ⟨?_, ?_, ?_⟩
  · intro h k hholds
    exact absurd hholds (List.not_mem_nil)
  · intro h hmem
    cases hmem
  · intro h hmem
    cases hmem

namespace Founded

variable {heap other : Heap} {own : List Handle} {h k : Handle}

/-- No circle can be closed: a way never comes back to a row, and along the host's records
places fall. -/
theorem proper (hheap : heap.Founded own) : heap.Proper := by
  refine ⟨fun h k hholds => hheap.exist k (hheap.holds h k hholds), ?_⟩
  intro h hcycle
  -- The first step leads into `own`, and from there on places fall.
  have hbelow : ∀ k, TransGen heap.Holds h k → k ∈ own ∧ (h ∈ own → k.index < h.index) := by
    intro k hpath
    induction hpath with
    | single hholds => exact ⟨hheap.holds _ _ hholds, fun hown => hheap.older _ hown _ hholds⟩
    | tail _ hholds ih =>
      exact ⟨hheap.holds _ _ hholds, fun hown => (hheap.older _ ih.1 _ hholds).trans (ih.2 hown)⟩
  obtain ⟨hown, hlt⟩ := hbelow h hcycle
  exact lt_irrefl _ (hlt hown)

theorem mem_of_path (hheap : heap.Founded own) (hk : k ∈ own) {j : Handle}
    (hpath : ReflTransGen heap.Holds k j) : j ∈ own := by
  rcases hpath.cases_tail with rfl | ⟨last, -, hlast⟩
  · exact hk
  · exact hheap.holds last j hlast

/-- A heap stays founded if the record that is written is not the host's, and leads to the host's only. -/
theorem written (hheap : heap.Founded own) (hwritten : heap.Written other h) (hfree : h ∉ own)
    (hnew : ∀ k ∈ (other.get h).handles, k ∈ own) : other.Founded own := by
  refine ⟨?_, ?_, ?_⟩
  · intro a k hholds
    by_cases ha : a = h
    · subst ha
      exact hnew k hholds
    · exact hheap.holds a k (hwritten.holds ha hholds)
  · intro a ha k hholds
    have hne : a ≠ h := ne_of_mem_of_not_mem ha hfree
    exact hheap.older a ha k (hwritten.holds hne hholds)
  · intro k hk
    exact (hwritten.live_iff k).mpr (.inr (hheap.exist k hk))

/-- **What the host's records show does not change** when another record is written. -/
theorem recordJson_eq (hheap : heap.Founded own) (hwritten : heap.Written other h) (hfree : h ∉ own)
    (hnew : ∀ k ∈ (other.get h).handles, k ∈ own) (hk : k ∈ own) :
    other.recordJson k = heap.recordJson k := by
  apply hheap.proper.recordJson_congr (hheap.written hwritten hfree hnew).proper
  intro j hpath
  have hj := hheap.mem_of_path hk hpath
  have hlive := hheap.exist j hj
  exact ⟨hlive, (hwritten.live_iff j).mpr (.inr hlive), hwritten.get_eq j (ne_of_mem_of_not_mem hj hfree)⟩

/-- A record of the host may hold the handles of those that it has made before. -/
theorem hold (hheap : heap.Founded own) {r : Record} (hr : ∀ k ∈ r.handles, k ∈ own) :
    (heap.alloc r).2.Founded (⟨heap.size⟩ :: own) := by
  have hwritten := written_alloc heap r
  have hself : (heap.alloc r).2.get ⟨heap.size⟩ = r := get_alloc_self heap r
  have hfree : ⟨heap.size⟩ ∉ own := fun hmem => lt_irrefl _ (hheap.exist _ hmem)
  have hkept := hheap.written hwritten hfree (by rwa [hself])
  refine ⟨?_, ?_, ?_⟩
  · intro a k hholds
    exact List.mem_cons_of_mem _ (hkept.holds a k hholds)
  · intro a ha k hholds
    rcases List.mem_cons.mp ha with rfl | ha
    · exact hheap.exist k (hkept.holds _ k hholds)
    · exact hkept.older a ha k hholds
  · intro k hk
    exact (hwritten.live_iff k).mpr ((List.mem_cons.mp hk).imp_right (hheap.exist k))

/-- What is written into a record is detached, and a copied record holds handles of the
host's only. -/
theorem mem_of_merge (hheap : heap.Founded own) {r : Record} (hr : ∀ k ∈ r.handles, k ∈ own)
    {fields : Fields Value} (hk : k ∈ (r.merge (heap.detachFields fields)).handles) : k ∈ own := by
  rcases holder_of_mem_merge hk with hold | ⟨outer, -, hholds⟩
  · exact hr k hold
  · exact hheap.holds outer k hholds

end Founded

end Heap

/-! ## Stores -/

namespace Store

/-- All handles in records and defaults lead to records of the host, listed in `own`. Rows are different
records, and not the host's. -/
structure Orderly (s : Store) (own : List Handle) : Prop where
  heap : s.heap.Founded own
  distinct : s.DistinctRows
  apart : ∀ entity other, entity ≠ other → ∀ h ∈ s.rows entity, h ∉ s.rows other
  free : ∀ entity, ∀ h ∈ s.rows entity, h ∉ own
  defaults : ∀ entity, Value.handlesFields ((s.defaults.get? entity).getD .empty) = []

theorem orderly_empty : Orderly empty [] := by
  refine ⟨Heap.founded_empty, distinctRows_empty, ?_, ?_, fun _ => rfl⟩
  · intro entity other _ h hmem
    cases hmem
  · intro entity h hmem
    cases hmem

/-- A row was a row before, or it is the record that the call has made. -/
theorem mem_rows_perform {s : Store} {call : Call} {entity : String} {h : Handle}
    (hmem : h ∈ (call.perform s).rows entity) :
    h ∈ s.rows entity ∨ h = ⟨s.heap.size⟩ ∧ ∃ fields, call = .create entity fields := by
  by_cases hnone : call.issues s = []
  · exact .inl (((call.thins s hnone).rows entity).subset hmem)
  · cases call with
    | create other fields =>
      rcases mem_rows_create.mp hmem with hold | ⟨rfl, hnew⟩
      · exact .inl hold
      · exact .inr ⟨hnew, fields, rfl⟩
    | _ => exact absurd rfl hnone

theorem update_keeps (s : Store) (entity : String) (id : UInt64) (patch : Fields Value) :
    ((Call.update entity id patch).perform s).tables = s.tables ∧
      ((Call.update entity id patch).perform s).defaults = s.defaults := by
  simp only [Call.perform, update]
  cases s.row? entity id with
  | none => exact ⟨rfl, rfl⟩
  | some h => exact ⟨rfl, rfl⟩

theorem defaults_perform {s : Store} {call : Call} (hcall : call.SetsPlain)
    (hs : ∀ entity, Value.handlesFields ((s.defaults.get? entity).getD .empty) = []) (entity : String) :
    Value.handlesFields (((call.perform s).defaults.get? entity).getD .empty) = [] := by
  cases call with
  -- The other calls leave the defaults alone.
  | define other defaults =>
    rw [Call.perform, define, FieldMap.get?_insert]
    by_cases heq : other = entity
    · rw [if_pos heq]
      exact hcall
    · rw [if_neg heq]
      exact hs entity
  | update other id patch =>
    rw [(update_keeps s other id patch).2]
    exact hs entity
  | delete other target =>
    rw [Call.perform, defaults_delete]
    exact hs entity
  | _ => exact hs entity

namespace Orderly

variable {s : Store} {own : List Handle}

/-- **A call writes one record at most.** It is not the host's, and it holds handles of the host's only,
whatever the call has been given. -/
theorem heap_perform (hs : Orderly s own) (call : Call) :
    (call.perform s).heap = s.heap ∨
      ∃ h, h ∉ own ∧ s.heap.Written (call.perform s).heap h ∧
        ∀ k ∈ ((call.perform s).heap.get h).handles, k ∈ own := by
  cases call with
  | create entity fields =>
    refine .inr ⟨(s.create entity fields).1, ?_, s.written_create entity fields, ?_⟩
    · exact fun hmem => lt_irrefl s.heap.size (hs.heap.exist _ hmem)
    · intro k hk
      -- The defaults hold no handle, so what the new record holds was given.
      rw [Call.perform, get_create] at hk
      refine hs.heap.mem_of_merge (r := s.blank entity) ?_ hk
      intro k hk
      rw [Record.handles, blank, hs.defaults entity] at hk
      cases hk
  | update entity id patch =>
    rw [Call.perform]
    cases hupdate : s.update entity id patch with
    | error why => exact .inl rfl
    | ok result =>
      obtain ⟨h, after⟩ := result
      obtain ⟨hrow, hafter⟩ := update_eq_ok_iff.mp hupdate
      obtain ⟨hmem, -⟩ := mem_rows_of_row? hrow
      have hlive := hs.distinct.exist entity h hmem
      refine .inr ⟨h, hs.free entity h hmem, ?_, ?_⟩
      · rw [← hafter]
        exact Heap.written_set hlive _
      · intro k hk
        -- The row held handles of the host's only, and so did what was copied into it.
        simp only [get_update hupdate hlive, if_true] at hk
        exact hs.heap.mem_of_merge (hs.heap.holds h) hk
  | delete entity target => exact .inl (delete_spec s entity target).1
  | _ => exact .inl rfl

theorem founded_perform (hs : Orderly s own) (call : Call) : (call.perform s).heap.Founded own := by
  rcases hs.heap_perform call with hsame | ⟨h, hfree, hwritten, hnew⟩
  · rw [hsame]
    exact hs.heap
  · exact hs.heap.written hwritten hfree hnew

/-- No call changes what the host's records show. -/
theorem recordJson_perform (hs : Orderly s own) (call : Call) {k : Handle} (hk : k ∈ own) :
    (call.perform s).heap.recordJson k = s.heap.recordJson k := by
  rcases hs.heap_perform call with hsame | ⟨h, hfree, hwritten, hnew⟩
  · rw [hsame]
  · exact hs.heap.recordJson_eq hwritten hfree hnew hk

/-- **A call keeps the order of a store.** -/
theorem perform (hs : Orderly s own) {call : Call} (hcall : call.SetsPlain) : Orderly (call.perform s) own := by
  -- The handle of a new record is behind all rows and behind the host's records.
  have hfresh : ∀ entity, ⟨s.heap.size⟩ ∉ s.rows entity :=
    fun entity hmem => lt_irrefl _ (hs.distinct.exist entity _ hmem)
  refine ⟨hs.founded_perform call, hs.distinct.perform call, ?_, ?_, defaults_perform hcall hs.defaults⟩
  · intro entity other hne h hmem hother
    rcases mem_rows_perform hmem with hold | ⟨hnew, fields, rfl⟩
    · rcases mem_rows_perform hother with hold' | ⟨hnew, -⟩
      · exact hs.apart entity other hne h hold hold'
      · exact hfresh entity (hnew ▸ hold)
    · rcases mem_rows_perform hother with hold | ⟨-, fields', hsame⟩
      · exact hfresh other (hnew ▸ hold)
      · cases hsame
        exact hne rfl
  · intro entity h hmem
    rcases mem_rows_perform hmem with hold | ⟨rfl, -⟩
    · exact hs.free entity h hold
    · exact fun hown => lt_irrefl _ (hs.heap.exist _ hown)

/-- A record of the host that holds handles of the host's keeps the order. -/
theorem hold (hs : Orderly s own) {r : Record} (hr : ∀ k ∈ r.handles, k ∈ own) :
    Orderly { s with heap := (s.heap.alloc r).2 } (⟨s.heap.size⟩ :: own) := by
  refine ⟨hs.heap.hold hr, (thins_alloc s r).distinctRows hs.distinct, hs.apart, ?_, hs.defaults⟩
  intro entity h hmem hown
  rcases List.mem_cons.mp hown with rfl | hown
  · exact lt_irrefl _ (hs.distinct.exist entity _ hmem)
  · exact hs.free entity h hmem hown

theorem performAll (hs : Orderly s own) {calls : List Call} (hcalls : ∀ call ∈ calls, call.SetsPlain) :
    Orderly (s.performAll calls) own := by
  have hstep : ∀ (s : Store) (call : Call), Orderly s own → call.SetsPlain → Orderly (call.perform s) own :=
    fun _ _ hs hcall => hs.perform hcall
  exact performAll_invariant hstep hs hcalls

end Orderly

/-! ## Histories -/

/-- The rules for a host that has made the records in `own`: defaults come from a declared model, and a record
that it makes for itself holds no handles but of those. Otherwise it may call the store with any values and run any
programs. -/
def HostAction.Fair (own : List Handle) (action : HostAction) : Prop :=
  action.Obeys Call.FromModel (fun r => ∀ k ∈ r.handles, k ∈ own)

/-- The records that the host has made after an action. -/
def HostAction.ownAfter (s : Store) (own : List Handle) : HostAction → List Handle
  | .hold _ => ⟨s.heap.size⟩ :: own
  | _ => own

/-- The stores that a host can get to from the empty one, with the records that it has made for itself. -/
inductive Reached : Store → List Handle → Prop where
  | empty : Reached Store.empty []
  | action {s : Store} {own : List Handle} (action : HostAction) :
      Reached s own → action.Fair own → Reached (action.perform s) (action.ownAfter s own)

/-- **A store is orderly after every history**, failing programs included. -/
theorem Reached.orderly {s : Store} {own : List Handle} (h : Reached s own) : Orderly s own := by
  induction h with
  | empty => exact orderly_empty
  | @action s own action _ hfair ih =>
    cases action with
    | call made => exact ih.perform (Call.FromModel.setsPlain hfair)
    | hold r => exact ih.hold hfair
    -- A program is the calls that it makes, in their order, and no program sets defaults.
    | runBody scope log now body =>
      rw [HostAction.perform, Machine.store_runBody]
      exact ih.performAll (Machine.forall_blockCalls setsPlain_query _ body)
    | step scope log now statement =>
      rw [HostAction.perform, Machine.store_step]
      exact ih.performAll (Machine.forall_blockCalls setsPlain_query _ [statement])

end Store

end ServiceEngine
