import Mathlib
import ServiceEngine.Program.Definition
import ServiceEngine.Proofs.Exec.Effects

/-!
# Tables after any history

A store is worked on by its host, who calls it, and by the programs that the host runs on it. A history
is a list of such actions in any order; programs may fail, and what they did before stays done. After every
history the tables agree with what has been given out: ids are handed out from 1 upwards, one for each
`create`, and none of them twice.
-/

namespace ServiceEngine

/-! ## Running a body or a single statement -/

namespace Machine

/-- The store calls of a block in the root frame. -/
def blockCalls (m : Machine) (body : List Stmt) : List Store.Call :=
  (Stmt.traceFrom Scope.root 0 body m).flatMap Moment.calls

/-- What holds of every query's call holds of every call of a block. -/
theorem forall_blockCalls {P : Store.Call → Prop}
    (hP : ∀ (entity : String) (query : Query), P (query.call entity)) (m : Machine) (body : List Stmt) :
    ∀ call ∈ m.blockCalls body, P call := by
  intro call hmem
  obtain ⟨moment, -, hcall⟩ := List.mem_flatMap.mp hmem
  exact moment.forall_calls hP call hcall

/-- A body leaves the store after its calls, whether it ends or fails. -/
theorem store_runBody (m : Machine) (body : List Stmt) :
    (m.runBody body).2.store = m.store.performAll (m.blockCalls body) := by
  have hblock := Stmt.store_run.2 body Scope.root 0 m
  rw [blockCalls, ← hblock]
  unfold runBody runBlock
  rcases Stmt.runFrom Scope.root 0 body m with ⟨failure | (- | v), m'⟩ <;> rfl

/-- A single statement does what a block of this one statement does. -/
theorem store_step (m : Machine) (statement : Stmt) :
    (m.step statement).2.store = m.store.performAll (m.blockCalls [statement]) := by
  have hblock := Stmt.store_run.2 [statement] Scope.root 0 m
  rw [blockCalls, ← hblock, Stmt.runFrom]
  unfold step
  rcases Stmt.run Scope.root statement m with ⟨trouble | (- | v), m'⟩
  · rfl
  · simp only [Stmt.runFrom]
  · rfl

end Machine

namespace Store

/-! ## Histories -/

/-- What a host does with a store: it makes a call, keeps a record of its own beside the tables, or runs
a program on it, with any bindings, log and time. -/
inductive HostAction where
  | call (made : Call)
  | hold (r : Record)
  | runBody (scope : Scope) (log : Array String) (now : Int) (body : List Stmt)
  | step (scope : Scope) (log : Array String) (now : Int) (statement : Stmt)

namespace HostAction

/-- The store after an action. -/
def perform (s : Store) : HostAction → Store
  | .call made => made.perform s
  | .hold r => { s with heap := (s.heap.alloc r).2 }
  | .runBody scope log now body => ((Machine.mk scope ⟨s, log, now⟩).runBody body).2.store
  | .step scope log now statement => ((Machine.mk scope ⟨s, log, now⟩).step statement).2.store

/-- The store calls of an action, in order. -/
def calls (s : Store) : HostAction → List Call
  | .call made => [made]
  | .hold _ => []
  | .runBody scope log now body => (Machine.mk scope ⟨s, log, now⟩).blockCalls body
  | .step scope log now statement => (Machine.mk scope ⟨s, log, now⟩).blockCalls [statement]

end HostAction

def afterActions (s : Store) (actions : List HostAction) : Store := actions.foldl HostAction.perform s

def actionIssues (s : Store) : List HostAction → List Issue
  | [] => []
  | action :: rest => s.issuesAll (action.calls s) ++ (action.perform s).actionIssues rest

/-- A longer history goes on giving out from where the shorter one ended. -/
theorem actionIssues_append (s : Store) (actions more : List HostAction) :
    s.actionIssues (actions ++ more) = s.actionIssues actions ++ (s.afterActions actions).actionIssues more := by
  induction actions generalizing s with
  | nil => rfl
  | cons action rest ih => simp [actionIssues, ih, afterActions]

/-! ## Invariants of a history -/

/-- What is asked of an action: its call, or the record that the host keeps, is of the kind that is allowed.
Programs are not restricted. -/
def HostAction.Obeys (allowed : Call → Prop) (kept : Record → Prop) : HostAction → Prop
  | .call made => allowed made
  | .hold r => kept r
  | _ => True

theorem HostAction.Obeys.imp {allowed allowed' : Call → Prop} {kept kept' : Record → Prop} {action : HostAction}
    (h : action.Obeys allowed kept) (hcall : ∀ call, allowed call → allowed' call)
    (hkept : ∀ r, kept r → kept' r) : action.Obeys allowed' kept' := by
  cases action with
  | call made => exact hcall made h
  | hold r => exact hkept r h
  | _ => trivial

/-- The defaults that a call sets, if it does, are those of a declared model. -/
def Call.FromModel : Call → Prop
  | .define entity defaults => ∃ model : Model, entity = model.name ∧ defaults = model.defaults
  | _ => True

section

variable {inv : Store → Prop} {allowed : Call → Prop}

/-- What every allowed call keeps, many calls keep. -/
theorem performAll_invariant (hcall : ∀ s call, inv s → allowed call → inv (call.perform s)) {s : Store}
    (hs : inv s) {calls : List Call} (hcalls : ∀ call ∈ calls, allowed call) :
    inv (s.performAll calls) := by
  induction calls generalizing s with
  | nil => exact hs
  | cons call rest ih =>
    obtain ⟨hfirst, hrest⟩ := List.forall_mem_cons.mp hcalls
    exact ih (hcall s call hs hfirst) hrest

/-- **What allowed calls and records keep, a history keeps**, if programs make allowed calls only. -/
theorem afterActions_invariant {kept : Record → Prop}
    (hcall : ∀ s call, inv s → allowed call → inv (call.perform s))
    (hquery : ∀ entity (query : Query), allowed (query.call entity))
    (hhold : ∀ s r, inv s → kept r → inv { s with heap := (s.heap.alloc r).2 }) {s : Store} (hs : inv s)
    {actions : List HostAction} (hactions : ∀ action ∈ actions, action.Obeys allowed kept) :
    inv (s.afterActions actions) := by
  -- By induction on the actions: each of them is a call, a record of the host, or the calls of a
  -- program.
  induction actions generalizing s with
  | nil => exact hs
  | cons action rest ih =>
    obtain ⟨haction, hrest⟩ := List.forall_mem_cons.mp hactions
    refine ih ?_ hrest
    cases action with
    | call made => exact hcall s made hs haction
    | hold r => exact hhold s r hs haction
    | runBody scope log now body =>
      -- Whether the body ends or fails, the store is the one after its calls.
      rw [HostAction.perform, Machine.store_runBody]
      exact performAll_invariant hcall hs (Machine.forall_blockCalls hquery _ body)
    | step scope log now statement =>
      rw [HostAction.perform, Machine.store_step]
      exact performAll_invariant hcall hs (Machine.forall_blockCalls hquery _ [statement])

end

/-- An action makes its calls, and only a record of the host comes to be without one. -/
theorem HostAction.perform_cases (action : HostAction) (s : Store) :
    action.perform s = s.performAll (action.calls s) ∨ ∃ r, action = .hold r := by
  cases action with
  | call made => exact Or.inl rfl
  | hold r => exact Or.inr ⟨r, rfl⟩
  | runBody scope log now body => exact Or.inl (Machine.store_runBody _ body)
  | step scope log now statement => exact Or.inl (Machine.store_step _ statement)

section

variable (inv : Store → List Issue → Prop)

/-- Many calls add their lines to what was given out, in order. -/
theorem performAll_issues_invariant
    (hcall : ∀ s issues (call : Call), inv s issues → inv (call.perform s) (issues ++ call.issues s))
    {s : Store} {issues : List Issue} (hs : inv s issues) (calls : List Call) :
    inv (s.performAll calls) (issues ++ s.issuesAll calls) := by
  induction calls generalizing s issues with
  | nil => simpa [performAll, issuesAll] using hs
  | cons call rest ih =>
    rw [issuesAll, ← List.append_assoc]
    exact ih (hcall s issues call hs)

/-- **What every call keeps of a store and what it has given out, a history keeps.** A record that the host
makes for itself is not given out. -/
theorem afterActions_issues_invariant
    (hcall : ∀ s issues (call : Call), inv s issues → inv (call.perform s) (issues ++ call.issues s))
    (hhold : ∀ s issues r, inv s issues → inv { s with heap := (s.heap.alloc r).2 } issues)
    {s : Store} {issues : List Issue} (hs : inv s issues) (actions : List HostAction) :
    inv (s.afterActions actions) (issues ++ s.actionIssues actions) := by
  induction actions generalizing s issues with
  | nil => simpa [afterActions, actionIssues] using hs
  | cons action rest ih =>
    rw [actionIssues, ← List.append_assoc]
    refine ih ?_
    rcases action.perform_cases s with hcalls | ⟨r, rfl⟩
    · rw [hcalls]
      exact performAll_issues_invariant inv hcall hs (action.calls s)
    · have hkept := hhold s issues r hs
      rwa [HostAction.calls, issuesAll, List.append_nil]

end

/-! ## The ledger of a history -/

/-- An entity for which fewer records are created than there are ids has its table numbered, whatever is
done with the others. -/
theorem numbered_afterActions (actions : List HostAction) (entity : String)
    (hbound : (issuesOf (empty.actionIssues actions) entity).length < UInt64.size) :
    Numbered (empty.afterActions actions) entity (issuesOf (empty.actionIssues actions) entity) := by
  have hempty : (issuesOf [] entity).length < UInt64.size → Numbered empty entity (issuesOf [] entity) :=
    fun _ => numbered_empty entity
  -- The bound at the end is a bound all the way, since nothing that was given out is taken back.
  refine afterActions_issues_invariant (fun s issues =>
    (issuesOf issues entity).length < UInt64.size → Numbered s entity (issuesOf issues entity))
    ?_ ?_ hempty actions hbound
  · intro s issues call hs hbound
    have hbefore := (length_issuesOf_le_append issues (call.issues s) entity).trans_lt hbound
    exact numbered_perform (hs hbefore) call hbound
  · intro s issues r hs hbound
    exact (thins_alloc s r).numbered (hs hbound)

/-- A ledger is kept by a history, as long as no entity runs out of ids. -/
theorem ledger_afterActions {s : Store} {issues : List Issue} (hs : Ledger s issues) (actions : List HostAction)
    (hbound : ∀ entity, (issuesOf (issues ++ s.actionIssues actions) entity).length < UInt64.size) :
    Ledger (s.afterActions actions) (issues ++ s.actionIssues actions) := by
  refine afterActions_issues_invariant (fun s issues =>
    (∀ entity, (issuesOf issues entity).length < UInt64.size) → Ledger s issues)
    ?_ ?_ (fun _ => hs) actions hbound
  · intro s issues call hs hbound
    exact ledger_perform (hs (length_issuesOf_lt_of_append hbound)) call hbound
  · intro s issues r hs hbound
    exact (thins_alloc s r).ledger (hs hbound)

/-- Every row after a history was given out for its table, and no record was given out twice. -/
theorem issued_afterActions (actions : List HostAction) :
    Issued (empty.afterActions actions) (empty.actionIssues actions) :=
  afterActions_issues_invariant Issued (fun _ _ call hs => issued_perform hs call)
    (fun s _ r hs => (thins_alloc s r).issued hs) issued_empty actions

/-- **The tables after any history.** Whatever calls are made and programs run on an empty store, failing
ones included, as long as no entity has as many records created as there are ids: the counter of an
entity is the number of its `create` calls; the ids of its rows ascend and lie between 1 and the counter;
its rows are different records, in no other table; no id was given out twice; and the entity has a
table if and only if a record was created in it. -/
theorem tables_afterActions (actions : List HostAction)
    (hbound : ∀ entity, (issuesOf (empty.actionIssues actions) entity).length < UInt64.size)
    (entity : String) :
    let s := empty.afterActions actions
    let issued := issuesOf (empty.actionIssues actions) entity
    (s.table entity).lastId.toNat = issued.length ∧
      ((s.rows entity).map (fun h => (s.heap.get h).id)).Pairwise (· < ·) ∧
      (∀ h ∈ s.rows entity, 1 ≤ (s.heap.get h).id ∧ (s.heap.get h).id ≤ (s.table entity).lastId) ∧
      (s.rows entity).Nodup ∧
      (∀ other, other ≠ entity → ∀ h ∈ s.rows entity, h ∉ s.rows other) ∧
      (issued.map Issue.id).Nodup ∧
      (s.tables.contains entity = true ↔ issued ≠ []) := by
  intro s issued
  have hs : Ledger s (empty.actionIssues actions) := ledger_afterActions ledger_empty actions hbound
  have hascending := hs.ascending entity
  refine ⟨hs.lastId_eq entity, ?_, ?_, ?_, ?_, ?_, hs.hasTable entity⟩
  · exact List.pairwise_map.mpr (hascending.imp UInt64.lt_iff_toNat_lt.mpr)
  · intro h hmem
    obtain ⟨hone, hlast⟩ := hs.bounded entity h hmem
    exact ⟨UInt64.le_iff_toNat_le.mpr hone, UInt64.le_iff_toNat_le.mpr hlast⟩
  -- Rows with ascending ids cannot repeat.
  · refine hascending.imp ?_
    rintro a _ hlt rfl
    exact lt_irrefl _ hlt
  · intro other hne h hmem
    exact hs.apart entity other hne.symm h hmem
  -- The ids given out are those from 1 to the counter, each once.
  · have hnodup : (issued.map (fun issue => issue.id.toNat)).Nodup := by
      rw [hs.ids_eq entity]
      exact List.nodup_range'
    refine List.Nodup.of_map UInt64.toNat ?_
    rwa [List.map_map]

/-- A record is created by the host, one by a program that fails later, the first is deleted, and a third
is created: ids 1 and 2 are not given out again. -/
theorem tables_afterActions_of_failure :
    let create : Stmt := .expression (.call (.member (.member (.identifier "db") "User") "create") [])
    let actions : List HostAction := [.call (.create "User" []),
      .runBody (Scope.ofVars (Machine.withBuiltins [])) #[] 0 [create, .expression (.identifier "z")],
      .call (.delete "User" (.id 1)), .call (.create "User" [])]
    (∀ entity, (issuesOf (empty.actionIssues actions) entity).length < UInt64.size) ∧
      ((empty.afterActions actions).table "User").lastId.toNat = 3 ∧
      ((empty.afterActions actions).rows "User").Nodup := by
  intro create actions
  have hlength : (empty.actionIssues actions).length = 3 := by cbv
  have hbound : ∀ entity, (issuesOf (empty.actionIssues actions) entity).length < UInt64.size := by
    intro entity
    refine lt_of_le_of_lt (List.length_filter_le _ _) ?_
    rw [hlength]
    decide
  obtain ⟨hlast, -, -, hnodup, -⟩ := tables_afterActions actions hbound "User"
  refine ⟨hbound, ?_, hnodup⟩
  rw [hlast]
  cbv

end Store

end ServiceEngine
