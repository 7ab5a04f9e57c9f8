import ServiceEngine.Decimal.Binary
import ServiceEngine.Value.Basic

/-!
# Records and the heap

A record has an id and fields; reading its field `id` always gives the id, whatever the fields hold.
Records live in a heap and are shared through handles, so a write is seen by every value that holds
the handle.

What is written into a record is detached first: each handle in it becomes a plain object, a copy of
the record's fields at that moment together with its id.
-/

namespace ServiceEngine

/-- A stored item: its id and its fields. Mirrors `Record`. -/
structure Record where
  id : UInt64
  fields : FieldMap Value
  deriving Inhabited

namespace Record

/-- The id as a runtime number. -/
def idValue (r : Record) : Value := .num (Decimal.floatOfNat r.id.toNat)

/-- The field `name`; `id` is the record's id. Mirrors `Record::get`. -/
def get? (r : Record) (name : String) : Option Value :=
  if name = "id" then some r.idValue else r.fields.get? name

/-- The fields and the id as one plain map. -/
def flatten (r : Record) : FieldMap Value := r.fields.insert "id" r.idValue

/-- Write every field of `patch` but `id`. Mirrors `RecordRef::merge`. -/
def merge (r : Record) (patch : Fields Value) : Record :=
  { r with fields := r.fields.merge (patch.erase "id") }

end Record

/-- The records that exist, by the place their handles name. -/
structure Heap where
  records : Array Record
  deriving Inhabited

namespace Heap

def empty : Heap := ⟨#[]⟩

def size (heap : Heap) : Nat := heap.records.size

/-- The record of a handle. -/
def get (heap : Heap) (h : Handle) : Record := heap.records.getD h.index default

/-- Add a record and give its handle. Mirrors `RecordRef::new`. -/
def alloc (heap : Heap) (r : Record) : Handle × Heap :=
  (⟨heap.size⟩, ⟨heap.records.push r⟩)

/-- Replace the record of a handle. -/
def set (heap : Heap) (h : Handle) (r : Record) : Heap :=
  ⟨heap.records.setIfInBounds h.index r⟩

mutual

/-- The value with each handle replaced by a plain copy of its record. Mirrors `detach`: the copy
of a record is taken as it stands, so handles in its fields are kept. -/
def detach (heap : Heap) : Value → Value
  | .record h => .obj (heap.get h).flatten
  | .list items => .list (detachItems heap items)
  | .obj fields => .obj (detachFields heap fields)
  | .null => .null
  | .bool b => .bool b
  | .num x => .num x
  | .str s => .str s
  | .db => .db
  | .entity name => .entity name
  | .func f => .func f

def detachItems (heap : Heap) : List Value → List Value
  | [] => []
  | item :: rest => detach heap item :: detachItems heap rest

/-- The fields, each detached. Mirrors `detach_fields`. -/
def detachFields (heap : Heap) : List (String × Value) → List (String × Value)
  | [] => []
  | (name, value) :: rest => (name, detach heap value) :: detachFields heap rest

end

/-- The field `name` of an object or record, null if it has none; no other value has fields.
Mirrors `Val::field`. -/
def field? (heap : Heap) (v : Value) (name : String) : Option Value :=
  match v with
  | .obj fields => some ((Fields.get? fields name).getD .null)
  | .record h => some (((heap.get h).get? name).getD .null)
  | _ => none

end Heap

end ServiceEngine
