import ServiceEngine.Value.Equality
import ServiceEngine.Value.Json

/-!
# The record store

One table per entity, made by the first record. A table hands out ids from 1 upwards and never again,
and keeps its rows in the order of their creation. Every write is noted in a journal, from which
subscribers read.

A store operation is a function from the store to an answer and the store after it; one that finds no
record answers with the filter it searched for and leaves the store alone.
-/

namespace ServiceEngine

/-- What happened to a record. Mirrors `EntityEventKind`. -/
inductive EventKind where
  | created
  | updated
  | deleted
  deriving DecidableEq, Repr

def EventKind.name : EventKind → String
  | .created => "created"
  | .updated => "updated"
  | .deleted => "deleted"

def EventKind.ofName? : String → Option EventKind
  | "created" => some .created
  | "updated" => some .updated
  | "deleted" => some .deleted
  | _ => none

theorem EventKind.ofName?_name (kind : EventKind) : ofName? kind.name = some kind := by
  cases kind <;> rfl

/-- A write: which entity, what happened, to which record. Mirrors `EntityEvent`. -/
structure Event where
  entity : String
  kind : EventKind
  record : Handle
  deriving DecidableEq, Repr

/-- The rows of an entity in order of creation, and the last id given out. -/
structure Table where
  lastId : UInt64
  rows : List Handle
  deriving Inhabited

/-- Which records are meant. Mirrors `Predicate`. -/
inductive Filter where
  /-- Every listed field has the given value; a field that a record lacks counts as null. -/
  | fields (expected : Fields Value)
  /-- A condition given by the host. -/
  | custom (test : Record → Bool)

namespace Filter

/-- Whether a record is meant. Mirrors `Predicate::matches`. -/
def holds (heap : Heap) (r : Record) : Filter → Bool
  | .fields expected => expected.all (fun entry => heap.equal ((r.get? entry.1).getD .null) entry.2)
  | .custom test => test r

/-- The filter in messages. Mirrors `Predicate::describe`. -/
def describe (heap : Heap) : Filter → String
  | .fields expected => (heap.fieldsJson expected).compact
  | .custom _ => "<custom predicate>"

/-- The filter for the record with an id. Mirrors `id_predicate`. -/
def byId (id : UInt64) : Filter := .fields [("id", .num (Decimal.floatOfNat id.toNat))]

end Filter

/-- Which records a delete removes. Mirrors `DeleteTarget`. -/
inductive Target where
  | id (id : UInt64)
  | matching (filter : Filter)

/-- A search without result: where, and for what. -/
structure NotFound where
  entity : String
  criteria : String
  deriving DecidableEq, Repr

/-- The records, the tables, the default fields of new records by entity, and all events so far.
Mirrors `Database`, where the journal is a broadcast channel that keeps the last events only. -/
structure Store where
  heap : Heap
  tables : FieldMap Table
  defaults : FieldMap (FieldMap Value)
  journal : Array Event
  deriving Inhabited

namespace Store

def empty : Store := ⟨.empty, .empty, .empty, #[]⟩

/-- The table of an entity; one that has no table has no rows. -/
def table (s : Store) (entity : String) : Table := (s.tables.get? entity).getD ⟨0, []⟩

def rows (s : Store) (entity : String) : List Handle := (s.table entity).rows

/-- Note an event. Mirrors `Database::emit`. -/
def emit (s : Store) (entity : String) (kind : EventKind) (h : Handle) : Store :=
  { s with journal := s.journal.push ⟨entity, kind, h⟩ }

/-- Set the default fields of an entity's later records. Mirrors `Database::define`. -/
def define (s : Store) (entity : String) (defaults : FieldMap Value) : Store :=
  { s with defaults := s.defaults.insert entity defaults }

/-- Make a record from the entity's defaults and the given fields, `id` apart. Mirrors
`Database::create`. -/
def create (s : Store) (entity : String) (fields : Fields Value) : Handle × Store :=
  let defaults := (s.defaults.get? entity).getD .empty
  -- Handles in the given fields become plain copies before anything else happens to them.
  let given := Fields.erase (s.heap.detachFields fields) "id"
  let id := (s.table entity).lastId + 1
  let (h, heap) := s.heap.alloc ⟨id, defaults.merge given⟩
  let tables := s.tables.insert entity ⟨id, s.rows entity ++ [h]⟩
  (h, { s with heap, tables }.emit entity .created h)

/-- Whether the row of a handle passes a filter. -/
def passes (s : Store) (filter : Filter) (h : Handle) : Bool := filter.holds s.heap (s.heap.get h)

/-- The rows of an entity, those that pass a filter if one is given. Mirrors
`Database::find_all`. -/
def findAll (s : Store) (entity : String) (filter : Option Filter) : List Handle :=
  match filter with
  | none => s.rows entity
  | some filter => (s.rows entity).filter (s.passes filter)

/-- The first row that passes a filter. Mirrors `Database::find`. -/
def find (s : Store) (entity : String) (filter : Filter) : Except NotFound Handle :=
  match (s.rows entity).find? (s.passes filter) with
  | some h => .ok h
  | none => .error ⟨entity, filter.describe s.heap⟩

/-- The row with an id. Mirrors `Database::find_by_id`. -/
def row? (s : Store) (entity : String) (id : UInt64) : Option Handle :=
  (s.rows entity).find? (fun h => (s.heap.get h).id == id)

/-- Write the fields of `patch`, `id` apart, into the row with an id. Mirrors
`Database::update`. -/
def update (s : Store) (entity : String) (id : UInt64) (patch : Fields Value) :
    Except NotFound (Handle × Store) :=
  match s.row? entity id with
  | some h =>
    let r := (s.heap.get h).merge (s.heap.detachFields patch)
    .ok (h, { s with heap := s.heap.set h r }.emit entity .updated h)
  | none => .error ⟨entity, "id " ++ toString id.toNat⟩

/-- The rows that a delete removes. -/
def removed (s : Store) (entity : String) : Target → List Handle
  | .id id => (s.row? entity id).toList
  | .matching filter => s.findAll entity (some filter)

/-- Remove rows from a table; the number of them. Mirrors `Database::delete`. -/
def delete (s : Store) (entity : String) (target : Target) : Nat × Store :=
  match s.tables.get? entity with
  | none => (0, s)
  | some table =>
    let gone := s.removed entity target
    -- An id removes the first row that has it, a filter all rows that pass.
    let kept := match target with
      | .id id => table.rows.eraseP (fun h => (s.heap.get h).id == id)
      | .matching filter => table.rows.filter (fun h => !s.passes filter h)
    let s := { s with tables := s.tables.insert entity { table with rows := kept } }
    (gone.length, gone.foldl (fun s h => s.emit entity .deleted h) s)

def count (s : Store) (entity : String) : Nat := (s.rows entity).length

/-- The entities that have a table, in ascending order. Mirrors `Database::entities`. -/
def entities (s : Store) : List String := s.tables.names

/-- Every table as JSON. Mirrors `Database::dump`. -/
def dump (s : Store) : Json :=
  .object (s.tables.mapValues (fun table => Json.array (table.rows.map s.heap.recordJson)))

end Store

end ServiceEngine
