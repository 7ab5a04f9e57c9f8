import Mathlib
import ServiceEngine.Proofs.Store.Journal
import ServiceEngine.Proofs.Store.History

/-!
# Deleted records

A delete takes a record out of its table. The record itself stays in the heap, and its handle may still be
held: by a binding, in a list, in an event that waits for its readers. `Store.deleted_records_frozen` says
that nothing can be done with such a handle that would change the record or make it a row again.

1. The calls of the store write to rows only, and make rows only of new records. So a record that is in no
   table stays as it is (`Store.Retired`).
2. A record is given out for one table (`Store.Issued`). So once it has left that table it is in none.

A program makes many calls. To look at the store between any two of them, a history is opened up into its
single calls (`Store.opened`).
-/

namespace ServiceEngine.Store

/-! ## Records in no table -/

/-- The record of a handle is in no table, and reads as `r`. -/
structure Retired (h : Handle) (r : Record) (s : Store) : Prop where
  exist : h.index < s.heap.size
  absent : ∀ entity, h ∉ s.rows entity
  get_eq : s.heap.get h = r

section

variable {h : Handle} {r : Record} {s : Store}

theorem Retired.of_thins {s' : Store} (hs : Retired h r s) (hthins : Thins s s')
    (hget : s'.heap.get h = s.heap.get h) : Retired h r s' := by
  refine ⟨hs.exist.trans_le hthins.size_le, ?_, hget.trans hs.get_eq⟩
  intro entity hmem
  exact hs.absent entity ((hthins.rows entity).subset hmem)

theorem Retired.create (hs : Retired h r s) (entity : String) (fields : Fields Value) :
    Retired h r (s.create entity fields).2 := by
  refine ⟨?_, ?_, ?_⟩
  · rw [size_create]
    exact hs.exist.trans (Nat.lt_succ_self _)
  -- The new row is a new record.
  · intro other hmem
    rcases mem_rows_create.mp hmem with hmem | ⟨-, rfl⟩
    · exact hs.absent other hmem
    · exact lt_irrefl _ hs.exist
  · exact (Heap.get_alloc_of_lt s.heap _ hs.exist).trans hs.get_eq

/-- An update writes to a row, so a record that is none stays as it is. -/
theorem Retired.update (hs : Retired h r s) {entity : String} {id : UInt64} {patch : Fields Value}
    {row : Handle} {s' : Store} (hupdate : s.update entity id patch = .ok (row, s')) :
    Retired h r s' := by
  apply hs.of_thins (thins_update hupdate)
  -- The record that is written to is found among the rows, whatever handle was passed.
  obtain ⟨hrow, rfl⟩ := update_eq_ok_iff.mp hupdate
  have hne : row ≠ h := by
    rintro rfl
    exact hs.absent entity (List.mem_of_find?_eq_some hrow)
  show (s.heap.set row _).get h = s.heap.get h
  rw [Heap.get_set, if_neg (fun heq => hne heq.1)]

/-- **A call leaves a record alone that is in no table**, and puts it into none. -/
theorem Retired.call (hs : Retired h r s) (call : Call) : Retired h r (call.perform s) := by
  cases call with
  | define entity defaults => exact hs.of_thins (thins_define s entity defaults) rfl
  | create entity fields => exact hs.create entity fields
  | update entity id patch =>
    rw [Call.perform]
    cases hupdate : s.update entity id patch with
    | ok result => exact hs.update hupdate
    | error why => exact hs
  | delete entity target =>
    apply hs.of_thins (thins_delete s entity target)
    rw [(delete_spec s entity target).1]
  | _ => exact hs

theorem Retired.hold (hs : Retired h r s) (kept : Record) :
    Retired h r { s with heap := (s.heap.alloc kept).2 } :=
  hs.of_thins (thins_alloc s kept) (Heap.get_alloc_of_lt s.heap kept hs.exist)

/-- **A history leaves a record alone that is in no table**, whatever calls are made and programs run. -/
theorem Retired.afterActions (hs : Retired h r s) (actions : List HostAction) :
    Retired h r (s.afterActions actions) := by
  have hany : ∀ action ∈ actions, action.Obeys (fun _ => True) (fun _ => True) := by
    intro action _
    cases action <;> trivial
  exact afterActions_invariant (fun _ call hs _ => hs.call call) (fun _ _ => trivial)
    (fun _ kept hs _ => hs.hold kept) hs hany

end

/-! ## One table for each record -/

theorem afterActions_append (s : Store) (actions more : List HostAction) :
    s.afterActions (actions ++ more) = (s.afterActions actions).afterActions more :=
  List.foldl_append

/-- A row that has left its table is in no table. -/
theorem retired_of_dropped {actions more : List HostAction} {entity : String} {h : Handle}
    (hrow : h ∈ (empty.afterActions actions).rows entity)
    (hgone : h ∉ (empty.afterActions (actions ++ more)).rows entity) :
    Retired h ((empty.afterActions (actions ++ more)).heap.get h) (empty.afterActions (actions ++ more)) := by
  have hlater := issued_afterActions (actions ++ more)
  -- What was given out is not taken back, so the handle is still one that was given out for its entity.
  have hissue := (issued_afterActions actions).rows entity h hrow
  have hstill := List.mem_append_left ((empty.afterActions actions).actionIssues more) hissue
  rw [← actionIssues_append] at hstill
  refine ⟨hlater.exist _ hstill, ?_, rfl⟩
  intro other hmem
  have hsame := hlater.entity_eq hstill (hlater.rows other h hmem)
  exact hgone (hsame ▸ hmem)

/-- Only a delete takes a row out of its table. -/
theorem Call.eq_delete_of_dropped {s : Store} {call : Call} {entity : String} {h : Handle}
    (hrow : h ∈ s.rows entity) (hgone : h ∉ (call.perform s).rows entity) :
    ∃ target, call = .delete entity target := by
  cases call with
  | create other fields => exact absurd (mem_rows_create.mpr (Or.inl hrow)) hgone
  | update other id patch =>
    rw [Call.perform] at hgone
    -- An update writes into a record and keeps all rows.
    cases hupdate : s.update other id patch with
    | ok result =>
      obtain ⟨row, after⟩ := result
      obtain ⟨-, rfl⟩ := update_eq_ok_iff.mp hupdate
      rw [hupdate] at hgone
      exact absurd hrow hgone
    | error why =>
      rw [hupdate] at hgone
      exact absurd hrow hgone
  | delete other target =>
    by_cases heq : other = entity
    · exact ⟨target, by rw [heq]⟩
    · rw [Call.perform, rows_delete, if_neg heq] at hgone
      exact absurd hrow hgone
  | _ => exact absurd hrow hgone

/-! ## Opening up a history -/

/-- An action as a list of single actions: a program is replaced by the calls that it makes. -/
def HostAction.parts (s : Store) : HostAction → List HostAction
  | .hold r => [.hold r]
  | action => (action.calls s).map .call

/-- A history as a list of single actions. -/
def opened (s : Store) : List HostAction → List HostAction
  | [] => []
  | action :: rest => action.parts s ++ (action.perform s).opened rest

theorem afterActions_map_call (s : Store) (calls : List Call) :
    s.afterActions (calls.map .call) = s.performAll calls :=
  List.foldl_map

/-- An action does what its parts do, one after the other. -/
theorem HostAction.afterActions_parts (action : HostAction) (s : Store) :
    s.afterActions (action.parts s) = action.perform s := by
  cases action with
  | call made => rfl
  | hold r => rfl
  | runBody scope log now body =>
    exact (afterActions_map_call s _).trans (Machine.store_runBody ⟨scope, ⟨s, log, now⟩⟩ body).symm
  | step scope log now statement =>
    exact (afterActions_map_call s _).trans (Machine.store_step ⟨scope, ⟨s, log, now⟩⟩ statement).symm

/-- A history that is opened up does the same. -/
theorem afterActions_opened (s : Store) (actions : List HostAction) :
    s.afterActions (s.opened actions) = s.afterActions actions := by
  induction actions generalizing s with
  | nil => rfl
  | cons action rest ih =>
    rw [opened, afterActions_append, action.afterActions_parts, ih]
    rfl

/-- The parts of an action are calls and records of the host. -/
theorem HostAction.mem_parts {action part : HostAction} {s : Store} (hmem : part ∈ action.parts s) :
    (∃ call, part = .call call) ∨ ∃ r, part = .hold r := by
  cases action with
  | hold r => exact Or.inr ⟨r, List.mem_singleton.mp hmem⟩
  | _ =>
    obtain ⟨call, -, rfl⟩ := List.mem_map.mp hmem
    exact Or.inl ⟨call, rfl⟩

theorem mem_opened {s : Store} {actions : List HostAction} {part : HostAction} (hmem : part ∈ s.opened actions) :
    (∃ call, part = .call call) ∨ ∃ r, part = .hold r := by
  induction actions generalizing s with
  | nil => cases hmem
  | cons action rest ih =>
    rcases List.mem_append.mp hmem with hmem | hmem
    · exact HostAction.mem_parts hmem
    · exact ih hmem

/-- The store after the first `n` single actions of a history. -/
def stage (actions : List HostAction) (n : Nat) : Store := empty.afterActions ((empty.opened actions).take n)

theorem stage_of_length_le {actions : List HostAction} {n : Nat} (hn : (empty.opened actions).length ≤ n) :
    stage actions n = empty.afterActions actions := by
  rw [stage, List.take_of_length_le hn, afterActions_opened]

/-- From one moment to the next a single action is carried out, or none at the end. -/
theorem stage_succ (actions : List HostAction) (n : Nat) :
    stage actions (n + 1) = (stage actions n).afterActions (empty.opened actions)[n]?.toList := by
  rw [stage, List.take_add_one, afterActions_append, stage]

/-- A row that is there before a single action and not after it was deleted by it. -/
theorem exists_delete_of_stage {actions : List HostAction} {entity : String} {h : Handle} {n : Nat}
    (hrow : h ∈ (stage actions n).rows entity) (hgone : h ∉ (stage actions (n + 1)).rows entity) :
    ∃ target, (empty.opened actions)[n]? = some (.call (.delete entity target)) ∧
      stage actions (n + 1) = ((stage actions n).delete entity target).2 := by
  have hstep := stage_succ actions n
  cases hpart : (empty.opened actions)[n]? with
  -- Past the end of the history nothing changes.
  | none =>
    rw [hstep, hpart] at hgone
    exact absurd hrow hgone
  | some part =>
    have hnext : stage actions (n + 1) = part.perform (stage actions n) := by
      rw [hstep, hpart]
      rfl
    rw [hnext] at hgone ⊢
    -- A record that the host keeps for itself touches no table, so the action is a call.
    rcases mem_opened (List.mem_of_getElem? hpart) with ⟨call, rfl⟩ | ⟨r, rfl⟩
    · obtain ⟨target, rfl⟩ := Call.eq_delete_of_dropped hrow hgone
      exact ⟨target, rfl, rfl⟩
    · exact absurd hrow hgone

/-- **Deleted records are frozen.** Take any history and any two of its moments, also in the middle of a
program: a record that is a row of an entity at the first and is not at the second. From the second on, at
every moment and at the end, the record has the id and the fields that it has there, and no table has it as
a row. If the two moments follow on each other, what lies between them is a delete for this entity, and the
record has kept what it had as a row. -/
theorem deleted_records_frozen (actions : List HostAction) (entity : String) (h : Handle) (i j : Nat) (hij : i ≤ j)
    (hrow : h ∈ (stage actions i).rows entity) (hgone : h ∉ (stage actions j).rows entity) :
    (∀ k, j ≤ k → (stage actions k).heap.get h = (stage actions j).heap.get h ∧
        ∀ other, h ∉ (stage actions k).rows other) ∧
      (empty.afterActions actions).heap.get h = (stage actions j).heap.get h ∧
      (∀ other, h ∉ (empty.afterActions actions).rows other) ∧
      (j = i + 1 → (∃ target, (empty.opened actions)[i]? = some (.call (.delete entity target))) ∧
        (stage actions j).heap.get h = (stage actions i).heap.get h) := by
  -- Both moments are moments of one history, the second of them the longer one.
  have hretired : Retired h ((stage actions j).heap.get h) (stage actions j) := by
    obtain ⟨n, rfl⟩ := Nat.exists_eq_add_of_le hij
    unfold stage at hrow hgone ⊢
    rw [List.take_add] at hgone ⊢
    exact retired_of_dropped hrow hgone
  have hlater : ∀ k, j ≤ k → Retired h ((stage actions j).heap.get h) (stage actions k) := by
    intro k hjk
    obtain ⟨n, rfl⟩ := Nat.exists_eq_add_of_le hjk
    show Retired h _ (empty.afterActions ((empty.opened actions).take (j + n)))
    rw [List.take_add, afterActions_append]
    exact hretired.afterActions _
  -- The end of the history is a moment like any other.
  have hend := hlater (max j (empty.opened actions).length) (le_max_left _ _)
  rw [stage_of_length_le (le_max_right _ _)] at hend
  refine ⟨fun k hjk => ⟨(hlater k hjk).get_eq, (hlater k hjk).absent⟩, hend.get_eq, hend.absent, ?_⟩
  rintro rfl
  obtain ⟨target, hdelete, hstage⟩ := exists_delete_of_stage hrow hgone
  refine ⟨⟨target, hdelete⟩, ?_⟩
  rw [hstage, (delete_spec _ entity target).1]

/-- A user is deleted. A program that still has the handle creates another user and hands the old handle to
an update, which fails. The deleted user reads as before. -/
theorem deleted_records_frozen_of_handle :
    let users : Expr := .member (.identifier "db") "User"
    let renamed : Expr := .object [("name", .identifier "who")]
    let scope := Scope.ofVars (Machine.withBuiltins [("u", .record ⟨0⟩), ("who", .str "eve")])
    let actions : List HostAction := [.call (.create "User" [("name", .str "ada")]), .call (.delete "User" (.id 1)),
      .runBody scope #[] 0 [.expression (.call (.member users "create") [renamed]),
        .expression (.call (.member users "update") [.identifier "u", renamed])]]
    (⟨0⟩ : Handle) ∈ (stage actions 1).rows "User" ∧ (⟨0⟩ : Handle) ∉ (stage actions 2).rows "User" ∧
      ((empty.afterActions actions).heap.get ⟨0⟩).get? "name" = some (.str "ada") ∧
      ∀ other, (⟨0⟩ : Handle) ∉ (empty.afterActions actions).rows other := by
  intro users renamed scope actions
  have hrow : (stage actions 1).rows "User" = [⟨0⟩] := by rfl
  have hgone : (stage actions 2).rows "User" = [] := by rfl
  have hmem : (⟨0⟩ : Handle) ∈ (stage actions 1).rows "User" := by simp [hrow]
  have hnot : (⟨0⟩ : Handle) ∉ (stage actions 2).rows "User" := by simp [hgone]
  obtain ⟨-, hget, habsent, -⟩ := deleted_records_frozen actions "User" ⟨0⟩ 1 2 (by decide) hmem hnot
  refine ⟨hmem, hnot, ?_, habsent⟩
  rw [hget]
  rfl

end ServiceEngine.Store
