import Mathlib
import ServiceEngine.Proofs.Lists
import ServiceEngine.Proofs.Store.Ledger

/-!
# The events of a call

`Call.events` says which events a call ought to cause, from the rows before and after it: one for a new
record, one for a record that is found and updated, one for each row that is gone, in the order of the
rows, and none otherwise. It does not look at the journal. Two results tie it to the store:

1. the journal grows by exactly these events (`Store.journal_perform`);
2. replayed over the rows before the call, the events give the rows after it (`Store.replay_events`).

Both need that the rows of a table are different records, which every call keeps
(`Store.DistinctRows`).
-/

namespace ServiceEngine.Store

/-! ## Rows are different records -/

/-- The rows of each table are different records of the heap. -/
structure DistinctRows (s : Store) : Prop where
  nodup : ∀ entity, (s.rows entity).Nodup
  exist : ∀ entity, ∀ h ∈ s.rows entity, h.index < s.heap.size

theorem distinctRows_empty : DistinctRows empty := by
  refine ⟨fun entity => List.nodup_nil, ?_⟩
  intro entity h hmem
  cases hmem

theorem Thins.distinctRows {s s' : Store} (h : Thins s s') (hs : DistinctRows s) : DistinctRows s' := by
  refine ⟨fun entity => (hs.nodup entity).sublist (h.rows entity), ?_⟩
  intro entity k hk
  exact (hs.exist entity k ((h.rows entity).subset hk)).trans_le h.size_le

theorem DistinctRows.create {s : Store} (hs : DistinctRows s) (entity : String)
    (fields : Fields Value) : DistinctRows (s.create entity fields).2 := by
  refine ⟨?_, ?_⟩
  · intro other
    rw [rows_create]
    by_cases heq : entity = other
    -- The new record lies behind all records that are rows.
    · rw [if_pos heq]
      refine List.nodup_append.mpr ⟨hs.nodup other, List.nodup_singleton _, ?_⟩
      rintro a ha b hb rfl
      rw [List.mem_singleton] at hb
      have hlt := hs.exist other a ha
      rw [hb] at hlt
      exact lt_irrefl _ hlt
    · rw [if_neg heq, List.append_nil]
      exact hs.nodup other
  -- Rows exist: the old ones did, and the heap has grown by the new one.
  · intro other h hmem
    rw [size_create]
    rcases mem_rows_create.mp hmem with hmem | ⟨-, rfl⟩
    · exact (hs.exist other h hmem).trans (Nat.lt_succ_self _)
    · exact Nat.lt_succ_self _

/-- Every call keeps the rows different records. -/
theorem DistinctRows.perform {s : Store} (hs : DistinctRows s) (call : Call) :
    DistinctRows (call.perform s) := by
  by_cases hnone : call.issues s = []
  · exact (call.thins s hnone).distinctRows hs
  · cases call with
    | create entity fields => exact hs.create entity fields
    | _ => exact absurd rfl hnone

/-! ## Events -/

/-- The events that a call ought to cause. -/
def Call.events (s : Store) : Call → List Event
  | .create entity fields => [⟨entity, .created, (s.create entity fields).1⟩]
  | .update entity id patch =>
    match s.update entity id patch with
    | .ok (h, _) => [⟨entity, .updated, h⟩]
    | .error _ => []
  | .delete entity target =>
    let left := (s.delete entity target).2.rows entity
    ((s.rows entity).filter (fun h => h ∉ left)).map (fun h => ⟨entity, .deleted, h⟩)
  | _ => []

/-- A delete leaves the rows that are kept, in its own table only. -/
theorem rows_delete (s : Store) (entity other : String) (target : Target) :
    (s.delete entity target).2.rows other =
      if entity = other then s.kept entity target else s.rows other := by
  have htables := (delete_spec s entity target).2 other
  unfold rows table at *
  rw [htables]
  by_cases heq : entity = other
  · subst heq
    cases htable : s.tables.get? entity with
    -- Without a table there are no rows to keep.
    | none => cases target <;> simp [kept, rows, table, htable]
    | some t => simp
  · simp [heq]

/-- What a delete removes is what is missing afterwards, in the order of the rows. -/
theorem removed_eq_filter {s : Store} (hs : DistinctRows s) (entity : String) (target : Target) :
    s.removed entity target =
      (s.rows entity).filter (fun h => h ∉ (s.delete entity target).2.rows entity) := by
  rw [rows_delete, if_pos rfl]
  cases target with
  -- By id, the first row that has it goes; the rows are different, so it is the one that is
  -- missing.
  | id id => exact toList_find?_eq_filter _ (hs.nodup entity)
  | matching filter =>
    apply List.filter_congr
    intro h hmem
    simp [kept, hmem]

theorem journal_foldl_emit (s : Store) (entity : String) (kind : EventKind) (handles : List Handle) :
    (handles.foldl (fun s h => s.emit entity kind h) s).journal.toList =
      s.journal.toList ++ handles.map (fun h => ⟨entity, kind, h⟩) := by
  induction handles generalizing s with
  | nil => simp
  | cons h rest ih =>
    rw [List.foldl_cons, ih]
    simp [emit]

/-- A delete notes one event for each row that it removes. -/
theorem journal_delete (s : Store) (entity : String) (target : Target) :
    (s.delete entity target).2.journal.toList =
      s.journal.toList ++ (s.removed entity target).map (fun h => ⟨entity, .deleted, h⟩) := by
  cases htable : s.tables.get? entity with
  | none =>
    have hrows : s.rows entity = [] := by simp [rows, table, htable]
    have hnone : s.removed entity target = [] := by
      cases target <;> simp [removed, row?, findAll, hrows]
    simp [delete, htable, hnone]
  | some t => rw [delete_of_table target htable, journal_foldl_emit]

/-- **The journal grows by the events of the call.** -/
theorem journal_perform {s : Store} (hs : DistinctRows s) (call : Call) :
    (call.perform s).journal.toList = s.journal.toList ++ call.events s := by
  cases call with
  | create entity fields => simp [Call.perform, Call.events, create, emit]
  | update entity id patch =>
    simp only [Call.perform, Call.events, update]
    cases s.row? entity id with
    | none => simp
    | some h => simp [emit]
  -- What is removed is what is missing afterwards, which is how the events are defined.
  | delete entity target =>
    simp only [Call.perform, Call.events]
    rw [journal_delete, removed_eq_filter hs]
  | _ => simp [Call.perform, Call.events, define]

/-! ## Replay -/

variable {κ : Type} [DecidableEq κ]

/-- The rows of an entity, each known by its key, after an event. -/
def replay (key : Handle → κ) (entity : String) (rows : List κ) (event : Event) : List κ :=
  if event.entity = entity then
    match event.kind with
    | .created => rows ++ [key event.record]
    | .updated => rows
    | .deleted => rows.erase (key event.record)
  else rows

/-- Replaying deletions takes the keys away, one after the other. -/
theorem foldl_replay_deleted (key : Handle → κ) (entity : String) (gone : List Handle) (rows : List κ) :
    (gone.map (fun h => Event.mk entity .deleted h)).foldl (replay key entity) rows =
      rows.diff (gone.map key) := by
  induction gone generalizing rows with
  | nil => simp
  | cons h rest ih => simp [ih, replay]

theorem foldl_replay_other (key : Handle → κ) {entity : String} {events : List Event} (rows : List κ)
    (h : ∀ event ∈ events, event.entity ≠ entity) : events.foldl (replay key entity) rows = rows := by
  induction events with
  | nil => rfl
  | cons event rest ih =>
    obtain ⟨hfirst, hrest⟩ := List.forall_mem_cons.mp h
    simpa [replay, hfirst] using ih hrest

/-- Rows that are known by different keys and taken away one by one leave the other rows. -/
theorem map_diff_filter {rows left : List Handle} {key : Handle → κ} (hkey : (rows.map key).Nodup)
    (hleft : left.Sublist rows) :
    (rows.map key).diff ((rows.filter (fun h => h ∉ left)).map key) = left.map key := by
  have hinj : ∀ a ∈ rows, ∀ b ∈ rows, key a = key b → a = b := List.inj_on_of_nodup_map hkey
  rw [hkey.sdiff_eq_filter, List.filter_map]
  congr 1
  -- A row is left exactly if its key is not among the keys of those that are gone.
  refine (List.filter_congr ?_).trans (filter_mem_of_sublist hkey.of_map hleft)
  intro h hmem
  have hgone : key h ∈ (rows.filter (fun k => k ∉ left)).map key ↔ h ∉ left := by
    simp only [List.mem_map, List.mem_filter, decide_eq_true_eq]
    constructor
    · rintro ⟨k, ⟨hk, hout⟩, heq⟩
      rwa [← hinj k hk h hmem heq]
    · intro hout
      exact ⟨h, ⟨hmem, hout⟩, rfl⟩
  simp only [Function.comp_apply, hgone, not_not]

/-- **Replayed over the rows before a call, its events give the rows after it.** -/
theorem replay_events {s : Store} {key : Handle → κ} {entity : String}
    (hkey : ((s.rows entity).map key).Nodup) (call : Call) :
    (call.events s).foldl (replay key entity) ((s.rows entity).map key) =
      ((call.perform s).rows entity).map key := by
  cases call with
  | create target fields =>
    simp only [Call.events, Call.perform, rows_create, List.map_append]
    by_cases heq : target = entity
    · simp [replay, heq, create, Heap.alloc]
    · simp [replay, heq]
  | update target id patch =>
    simp only [Call.events, Call.perform, update]
    cases s.row? target id with
    | none => simp
    | some h => simp [replay, rows, table, emit]
  | delete target which =>
    simp only [Call.events, Call.perform]
    by_cases heq : target = entity
    -- A replay of the deletions takes exactly the rows away that are gone.
    · subst heq
      rw [foldl_replay_deleted, rows_delete, if_pos rfl]
      exact map_diff_filter hkey (kept_sublist s target which)
    · rw [foldl_replay_other _ _ ?_, rows_delete, if_neg heq]
      intro event hmem
      obtain ⟨h, -, rfl⟩ := List.mem_map.mp hmem
      exact heq
  | _ => rfl

end ServiceEngine.Store
