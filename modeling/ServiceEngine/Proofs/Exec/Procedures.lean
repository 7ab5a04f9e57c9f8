import Mathlib
import ServiceEngine.Proofs.Exec.Harmless
import ServiceEngine.Proofs.Store.History

/-!
# Calls, effect by effect

A call of a built-in function is one step of the world: it answers with a fault, or with a value and the
world afterwards (`Builtin.call`). The engine that carries out a call works otherwise. It looks at one
argument after the other, may give up at any of them, and changes the world by one small effect at a time;
what it has done by the time it gives up stays done.

This module writes the calls out as such procedures and shows that they come to the same
(`Procedure.run_call`): whatever can fail does so before the first effect. Hence a call that fails leaves the
world as it was, and only `create` makes a table.
-/

namespace ServiceEngine

namespace Procedure

variable {α : Type}

/-! ## Effects -/

def look (f : Store → α) : Action α := do return f (← get).store

def change (f : Store → Store) : Action Unit := modify (fun w => { w with store := f w.store })

/-- Change the table of an entity. -/
def changeTable (entity : String) (f : Table → Table) : Action Unit :=
  change (fun s => { s with tables := s.tables.insert entity (f (s.table entity)) })

def note (entity : String) (kind : EventKind) (h : Handle) : Action Unit :=
  change (fun s => s.emit entity kind h)

/-- Give up a call for what is wrong with its arguments. -/
def refuse (name : String) (why : BadArgument) : Action α := throw (.badArgument name why)

/-- Read an argument, or give up the call of the function `name`. -/
def argument (name : String) (f : Heap → Except BadArgument α) : Action α := do
  match f (← Action.heap) with
  | .ok a => return a
  | .error why => refuse name why

/-! ## Store operations -/

/-- Make a record: give the entity a table if it has none, take the next id, and add a row. -/
def create (entity : String) (fields : Fields Value) : Action Value := do
  -- What is given is copied first, while nothing is written yet.
  let given ← look (fun s => Fields.erase (s.heap.detachFields fields) "id")
  let defaults ← look (fun s => (s.defaults.get? entity).getD .empty)
  change (fun s => { s with tables := s.tables.insertIfNew entity ⟨0, []⟩ })
  changeTable entity (fun t => { t with lastId := t.lastId + 1 })
  let id ← look (fun s => (s.table entity).lastId)
  let h ← look (fun s => (s.heap.alloc ⟨id, defaults.merge given⟩).1)
  change (fun s => { s with heap := (s.heap.alloc ⟨id, defaults.merge given⟩).2 })
  changeTable entity (fun t => { t with rows := t.rows ++ [h] })
  note entity .created h
  return .record h

def findAll (entity : String) (filter : Option (Fields Value)) : Action Value :=
  look (fun s => .list ((s.findAll entity (filter.map .fields)).map .record))

def find (entity : String) (filter : Filter) : Action Value := do
  match ← look (fun s => s.find entity filter) with
  | .ok h => return .record h
  | .error what => throw (.notFound what)

/-- Search for the row with an id, and write into it. -/
def update (entity : String) (id : UInt64) (patch : Fields Value) : Action Value := do
  match ← look (fun s => s.row? entity id) with
  | some h =>
    -- The patch may hold the very record that it is written into, so it is detached before.
    let patch ← look (fun s => s.heap.detachFields patch)
    change (fun s => { s with heap := s.heap.set h ((s.heap.get h).merge patch) })
    note entity .updated h
    return .record h
  | none => throw (.notFound ⟨entity, "id " ++ toString id.toNat⟩)

/-- Remove rows. A filter takes all rows out of the table and puts those back that do not pass. -/
def delete (entity : String) (target : Target) : Action Value := do
  if ← look (fun s => s.tables.contains entity) then
    let gone ← look (fun s => s.removed entity target)
    let kept ← look (fun s => s.kept entity target)
    match target with
    | .id _ => pure ()
    | .matching _ => changeTable entity (fun t => { t with rows := [] })
    changeTable entity (fun t => { t with rows := kept })
    gone.forM (note entity .deleted)
    return .num (Decimal.floatOfNat gone.length)
  else return .num (Decimal.floatOfNat 0)

def count (entity : String) : Action Value := look (fun s => .num (Decimal.floatOfNat (s.count entity)))

/-! ## Calls -/

def callOn (entity : String) (operation : Operation) (args : List Value) : Action Value :=
  let name := (Builtin.database (some entity) operation).name
  match operation, args with
  | .create, [] => create entity []
  | .create, [v] => do
    let fields ← argument name (Argument.fields · v)
    create entity fields
  | .create, args => refuse name (.atMost 1 args.length)
  | .findAll, [] => findAll entity none
  | .findAll, [.null] => findAll entity none
  | .findAll, [v] => do
    let fields ← argument name (Argument.fields · v)
    findAll entity (some fields)
  | .findAll, args => refuse name (.atMost 1 args.length)
  | .find, [v] =>
    if Argument.namesRecord v then do
      let id ← argument name (Argument.id · v)
      find entity (.byId id)
    else do
      let fields ← argument name (Argument.fields · v)
      find entity (.fields fields)
  | .find, args => refuse name (.exactly 1 args.length)
  | .update, [v, patch] => do
    -- The id is read first, so a bad id is reported even if the patch is bad too.
    let id ← argument name (Argument.id · v)
    let patch ← argument name (Argument.fields · patch)
    update entity id patch
  | .update, args => refuse name (.exactly 2 args.length)
  | .delete, [v] =>
    if Argument.namesRecord v then do
      let id ← argument name (Argument.id · v)
      delete entity (.id id)
    else do
      let fields ← argument name (Argument.fields · v)
      delete entity (.matching (.fields fields))
  | .delete, args => refuse name (.exactly 1 args.length)
  | .count, [] => count entity
  | .count, args => refuse name (.exactly 0 args.length)

def call : Builtin → List Value → Action Value
  | .log, args => do
    let line ← look (fun s => " ".intercalate (args.map s.heap.display))
    modify (fun w => w.logLine line)
    return .null
  | .now, args => do
    if args.isEmpty then return .num (Decimal.floatOfInt (← get).now)
    else refuse "now" (.exactly 0 args.length)
  | .database (some entity) operation, args => callOn entity operation args
  | .database none operation, .str entity :: args => callOn entity operation args
  | .database none operation, v :: _ => refuse (Builtin.database none operation).name (.entityKind v.kind)
  | .database none operation, [] => refuse (Builtin.database none operation).name .missingEntity

/-! ## Running the effects -/

theorem run_look (f : Store → α) (w : World) : (look f).run w = (.ok (f w.store), w) := rfl

theorem run_change (f : Store → Store) (w : World) :
    (change f).run w = (.ok (), { w with store := f w.store }) := rfl

theorem run_argument (name : String) (f : Heap → Except BadArgument α) (w : World) :
    (argument name f).run w = ((f w.heap).mapError (.badArgument name), w) := by
  rw [argument, Action.run_bind, Action.run_heap, Action.andThen_ok]
  cases f w.heap <;> rfl

/-- The events of a list are noted one after the other. -/
theorem run_forM_note (entity : String) (kind : EventKind) (handles : List Handle) (w : World) :
    (handles.forM (note entity kind)).run w =
      (.ok (), { w with store := handles.foldl (fun s h => s.emit entity kind h) w.store }) := by
  induction handles generalizing w with
  | nil => rfl
  | cons h rest ih =>
    show (note entity kind h >>= fun _ => rest.forM (note entity kind)).run w = _
    rw [Action.run_bind, note, run_change, Action.andThen_ok, ih]
    rfl

/-- A table that is made for a write is the one that the write finds, and is replaced by it. -/
theorem insertIfNew_spec (tables : FieldMap Table) (entity : String) :
    ((tables.insertIfNew entity ⟨0, []⟩).get? entity).getD ⟨0, []⟩ = (tables.get? entity).getD ⟨0, []⟩ ∧
      ∀ t, (tables.insertIfNew entity ⟨0, []⟩).insert entity t = tables.insert entity t := by
  unfold FieldMap.insertIfNew FieldMap.contains
  cases hget : tables.get? entity with
  | some t => simp [hget]
  | none => simp [FieldMap.get?_insert, FieldMap.insert_insert]

/-- Making a record step by step comes to the same record, row and event. -/
theorem run_create (entity : String) (fields : Fields Value) (w : World) :
    (create entity fields).run w = (.ok (.record (w.store.create entity fields).1),
      { w with store := (w.store.create entity fields).2 }) := by
  obtain ⟨hread, hwrite⟩ := insertIfNew_spec w.store.tables entity
  simp only [create, Action.run_bind, changeTable, note, run_look, run_change, Action.andThen_ok,
    Action.run_pure]
  -- The table is written three times, and the last write is the one that stays.
  simp only [Store.table, FieldMap.get?_insert, FieldMap.insert_insert, if_true, Option.getD_some, hread, hwrite]
  rfl

theorem run_find (entity : String) (filter : Filter) (w : World) :
    (find entity filter).run w =
      (((w.store.find entity filter).map .record).mapError .notFound, w) := by
  rw [find, Action.run_bind, run_look, Action.andThen_ok]
  cases w.store.find entity filter <;> rfl

/-- A row that is not found ends an update before its effects. -/
theorem run_update (entity : String) (id : UInt64) (patch : Fields Value) (w : World) :
    (update entity id patch).run w = match w.store.update entity id patch with
      | .ok (h, s) => (.ok (.record h), { w with store := s })
      | .error what => (.error (.notFound what), w) := by
  rw [update, Action.run_bind, run_look, Action.andThen_ok, Store.update]
  cases w.store.row? entity id <;> rfl

theorem run_delete (entity : String) (target : Target) (w : World) :
    (delete entity target).run w = (.ok (.num (Decimal.floatOfNat (w.store.delete entity target).1)),
      { w with store := (w.store.delete entity target).2 }) := by
  rw [delete, Action.run_bind, run_look, Action.andThen_ok]
  -- Where there is no table, nothing is removed and nothing is written.
  cases htable : w.store.tables.get? entity with
  | none => simp [FieldMap.contains, htable, Store.delete]
  | some t =>
    have hnumber : (w.store.delete entity target).1 = (w.store.removed entity target).length := by
      cases target <;> simp [Store.delete, htable]
    have hcontains : w.store.tables.contains entity = true := by simp [FieldMap.contains, htable]
    rw [if_pos hcontains, hnumber, Store.delete_of_table target htable]
    -- Taking all rows out first makes no difference: the table is written again.
    cases target with
    | id id =>
      simp only [Action.run_bind, Action.run_pure, changeTable, run_look, run_change, run_forM_note,
        Action.andThen_ok, Store.table, htable, Option.getD_some]
    | matching filter =>
      simp only [Action.run_bind, Action.run_pure, changeTable, run_look, run_change, run_forM_note,
        Action.andThen_ok, Store.table, htable, FieldMap.get?_insert, FieldMap.insert_insert, if_true,
        Option.getD_some]

/-! ## Running the calls -/

def perform (entity : String) : Query → Action Value
  | .create fields => create entity fields
  | .findAll filter => findAll entity filter
  | .find filter => find entity filter
  | .update id patch => update entity id patch
  | .delete target => delete entity target
  | .count => count entity

/-- The answer of a call and the world after it, which is the old one if the call fails. -/
def settle (w : World) : Except Fault (Value × Store) → Except Fault Value × World
  | .ok (v, s) => (.ok v, { w with store := s })
  | .error fault => (.error fault, w)

/-- The procedure of a query does what the query does. -/
theorem run_perform (entity : String) (query : Query) (w : World) :
    (perform entity query).run w = settle w ((query.perform w.store entity).mapError .notFound) := by
  cases query with
  | create fields => exact run_create entity fields w
  | findAll filter => rfl
  | find filter =>
    rw [perform, run_find, Query.perform]
    cases w.store.find entity filter <;> rfl
  | update id patch =>
    rw [perform, run_update, Query.perform]
    cases w.store.update entity id patch <;> rfl
  | delete target => exact run_delete entity target w
  | count => rfl

/-- What a call comes to once its arguments are understood, or not. -/
def answer (s : Store) (entity name : String) : Except BadArgument Query → Except Fault (Value × Store)
  | .ok query => (query.perform s entity).mapError .notFound
  | .error why => .error (.badArgument name why)

/-- A call is its query, or what is wrong with its arguments. -/
theorem callOn_eq_answer (s : Store) (entity : String) (operation : Operation) (args : List Value) :
    Builtin.callOn s entity operation args =
      answer s entity (Builtin.database (some entity) operation).name
        (Query.ofArguments s.heap operation args) := by
  unfold Builtin.callOn
  cases Query.ofArguments s.heap operation args with
  | error why => rfl
  | ok query =>
    simp only [answer]
    cases query.perform s entity <;> rfl

/-- An argument that cannot be read ends a procedure before its effects. -/
theorem run_argument_then (entity name : String) (f : Heap → Except BadArgument α) (query : α → Query)
    (w : World) :
    (argument name f >>= fun a => perform entity (query a)).run w =
      settle w (answer w.store entity name ((f w.heap).map query)) := by
  rw [Action.run_bind, run_argument]
  cases f w.heap with
  | error why => rfl
  | ok a => exact run_perform entity (query a) w

/-- A store operation comes to the same effect by effect. -/
theorem run_callOn (entity : String) (operation : Operation) (args : List Value) (w : World) :
    (callOn entity operation args).run w =
      settle w (Builtin.callOn w.store entity operation args) := by
  rw [callOn_eq_answer]
  -- A wrong number of arguments is refused on both sides, before any argument is read.
  cases operation with
  | create =>
    rcases args with - | ⟨v, - | ⟨extra, rest⟩⟩
    · exact run_perform entity (.create []) w
    · exact run_argument_then entity _ (Argument.fields · v) .create w
    · rfl
  | findAll =>
    rcases args with - | ⟨v, - | ⟨extra, rest⟩⟩
    · rfl
    -- A filter that is null asks for all rows, like a missing one.
    · cases v with
      | null => rfl
      | _ => exact run_argument_then entity _ (Argument.fields · _) (fun fields => .findAll (some fields)) w
    · cases v <;> rfl
  | find =>
    rcases args with - | ⟨v, - | ⟨extra, rest⟩⟩
    · rfl
    · simp only [callOn, Query.ofArguments]
      split
      · exact run_argument_then entity _ (Argument.id · v) (fun id => .find (.byId id)) w
      · exact run_argument_then entity _ (Argument.fields · v) (fun fields => .find (.fields fields)) w
    · rfl
  | update =>
    rcases args with - | ⟨v, - | ⟨patch, - | ⟨extra, rest⟩⟩⟩
    · rfl
    · rfl
    · simp only [callOn, Query.ofArguments]
      rw [Action.run_bind, run_argument, World.heap]
      cases Argument.id w.store.heap v with
      | error why => rfl
      | ok id =>
        -- The id is read; what is left depends on the patch alone.
        refine (run_argument_then entity _ (Argument.fields · patch) (.update id) w).trans ?_
        rw [World.heap]
        cases Argument.fields w.store.heap patch <;> rfl
    · rfl
  | delete =>
    rcases args with - | ⟨v, - | ⟨extra, rest⟩⟩
    · rfl
    · simp only [callOn, Query.ofArguments]
      split
      · exact run_argument_then entity _ (Argument.id · v) (fun id => .delete (.id id)) w
      · exact run_argument_then entity _ (Argument.fields · v)
          (fun fields => .delete (.matching (.fields fields))) w
    · rfl
  | count =>
    cases args with
    | nil => rfl
    | cons extra rest => rfl

/-- As one step, a store operation gives its answer with the store after it, or its fault with the
old world. -/
theorem run_atomically_database (entity : Option String) (operation : Operation) (args : List Value)
    (w : World) :
    (Action.atomically ((Builtin.database entity operation).call args)).run w =
      settle w (Builtin.callDatabase w.store entity operation args) := by
  rw [Action.run_atomically, Builtin.call]
  cases Builtin.callDatabase w.store entity operation args <;> rfl

/-- **A call comes to the same effect by effect**: what can fail does so before the first effect. -/
theorem run_call (f : Builtin) (args : List Value) (w : World) :
    (call f args).run w = (Action.atomically (f.call args)).run w := by
  cases f with
  | log => rfl
  | now =>
    rw [Action.run_atomically, call, Builtin.call]
    split <;> rfl
  | database entity operation =>
    rw [run_atomically_database]
    cases entity with
    | some entity => exact run_callOn entity operation args w
    | none =>
      -- Without an entity in front there is no call, and the refusal is the same.
      cases args with
      | nil => rfl
      | cons v rest =>
        cases v with
        | str entity => exact run_callOn entity operation rest w
        | _ => rfl

end Procedure

/-! ## Calls that fail, and calls that make no table -/

theorem Store.Call.contains_perform {s : Store} {call : Store.Call}
    (hcall : ∀ entity fields, call ≠ .create entity fields) (name : String) :
    (call.perform s).tables.contains name = s.tables.contains name := by
  refine (call.thins s ?_).contains_eq name
  cases call with
  | create entity fields => exact absurd rfl (hcall entity fields)
  | _ => rfl

theorem Query.call_ne_create {query : Query} (hquery : query.operation ≠ .create) (entity other : String)
    (fields : Fields Value) : query.call entity ≠ .create other fields := by
  cases query with
  | create => exact absurd rfl hquery
  | _ => nofun

/-- A function that is not `create` makes no such call, whatever its arguments. -/
theorem Builtin.calls_ne_create {f : Builtin} (hf : ∀ entity, f ≠ .database entity .create) {s : Store}
    {args : List Value} : ∀ call ∈ f.calls s args, ∀ entity fields, call ≠ .create entity fields := by
  -- The call of a query is of the operation that the arguments were read for.
  have hcallsOn : ∀ entity bound operation args, f = .database bound operation →
      ∀ call ∈ callsOn s entity operation args, ∀ other fields, call ≠ .create other fields := by
    rintro entity bound operation args rfl call hmem
    unfold callsOn at hmem
    cases hquery : Query.ofArguments s.heap operation args with
    | error why => simp [hquery] at hmem
    | ok query =>
      rw [hquery, List.mem_singleton] at hmem
      subst hmem
      refine Query.call_ne_create ?_ entity
      rw [Query.operation_of_ofArguments hquery]
      rintro rfl
      exact hf bound rfl
  unfold calls
  split
  · exact hcallsOn _ _ _ _ rfl
  · exact hcallsOn _ _ _ _ rfl
  · simp

/-- **A call that fails changes nothing.** Carried out effect by effect, a call of any function with any
arguments does what it does as one step. If it fails, the world is the one before: the tables, the records
and the counters, the defaults, the events that are noted for subscribers, and the log. Only `create`
makes a table: no other function does, whether it fails or not, nor does any other call of the host. -/
theorem failing_calls_change_nothing (f : Builtin) (args : List Value) (w : World) :
    (Procedure.call f args).run w = (Action.atomically (f.call args)).run w ∧
      (∀ fault w', (Procedure.call f args).run w = (.error fault, w') → w' = w) ∧
      ((∀ entity, f ≠ .database entity .create) → ∀ name,
        ((Procedure.call f args).run w).2.store.tables.contains name = w.store.tables.contains name) ∧
      ∀ call : Store.Call, (∀ entity fields, call ≠ .create entity fields) → ∀ name,
        (call.perform w.store).tables.contains name = w.store.tables.contains name := by
  have hrun := Procedure.run_call f args w
  refine ⟨hrun, ?_, ?_, fun call hcall => Store.Call.contains_perform hcall⟩
  -- In one step a fault comes with the old world, so it does effect by effect.
  · intro fault w' hfails
    rw [hrun, Action.run_atomically] at hfails
    cases hcall : f.call args w with
    | ok done => simp [hcall] at hfails
    | error why =>
      rw [hcall, Prod.mk.injEq] at hfails
      exact hfails.2.symm
  · intro hf
    rw [hrun, Builtin.store_call]
    -- Having the same tables is the invariant along the calls of the function.
    have hkeeps : ∀ (s : Store) (call : Store.Call),
        (∀ name, s.tables.contains name = w.store.tables.contains name) →
          (∀ entity fields, call ≠ .create entity fields) →
            ∀ name, (call.perform s).tables.contains name = w.store.tables.contains name := by
      intro s call hs hcall name
      rw [Store.Call.contains_perform hcall, hs]
    exact Store.performAll_invariant hkeeps (fun _ => rfl) (Builtin.calls_ne_create hf)

/-- A patch that is no object is refused after the id was read, and a delete in an entity without a table
removes nothing: neither leaves a trace. -/
theorem failing_calls_change_nothing_of_bad_patch :
    let w : World := ⟨(Store.empty.create "Task" [("text", .str "x")]).2, #["before"], 0⟩
    let update : Builtin := .database (some "Task") .update
    let delete : Builtin := .database none .delete
    (Procedure.call update [.num 1, .num 2]).run w =
        (.error (.badArgument "db.Task.update" (.notObject .number)), w) ∧
      ((Procedure.call delete [.str "User", .obj []]).run w).2.store.tables.contains "User" = false := by
  intro w update delete
  have hfails : (Procedure.call update [.num 1, .num 2]).run w =
      (.error (.badArgument "db.Task.update" (.notObject .number)),
        ((Procedure.call update [.num 1, .num 2]).run w).2) := by rfl
  refine ⟨?_, ?_⟩
  · rw [hfails, (failing_calls_change_nothing update [.num 1, .num 2] w).2.1 _ _ hfails]
  · rw [(failing_calls_change_nothing delete [.str "User", .obj []] w).2.2.1 (by simp [delete])]
    rfl

end ServiceEngine
