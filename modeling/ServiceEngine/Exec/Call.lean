import ServiceEngine.Decimal.Reader
import ServiceEngine.Exec.World
import ServiceEngine.Text.Blank

/-!
# Calls of built-in functions

A call of a store operation is first understood, then carried out. Understanding checks the number of
arguments before their kinds and the arguments from left to right, and looks at the store only to
read the fields and ids of records. Carrying out either fails and changes nothing, or succeeds.
-/

namespace ServiceEngine

/-! ## Arguments -/

namespace Argument

/-- The id that a number stands for: a whole number from zero up, at most the greatest word. -/
def numberId (x : Float) : Except BadArgument UInt64 :=
  match Decimal.whole? x with
  | some n =>
    if x < 0 then .error (.idNumber x) else .ok (UInt64.ofNat (min n.toNat (UInt64.size - 1)))
  | none => .error (.idNumber x)

/-- The record that a value names: a number, the text of a number, or a record itself.
Mirrors `to_id`. -/
def id (heap : Heap) : Value → Except BadArgument UInt64
  | .num x => numberId x
  | .str s =>
    match Decimal.float? (Text.trim s.toList) with
    | some x => numberId x
    | none => .error (.idText s)
  | .record h => .ok (heap.get h).id
  | v => .error (.notId v.kind)

/-- The fields of an object or a record. Mirrors `to_fields`. -/
def fields (heap : Heap) : Value → Except BadArgument (Fields Value)
  | .obj fields => .ok fields
  | .record h => .ok (heap.get h).fields
  | v => .error (.notObject v.kind)

/-- Whether a value names one record rather than a filter. -/
def namesRecord : Value → Bool
  | .num _ => true
  | .str _ => true
  | .record _ => true
  | _ => false

end Argument

/-! ## Store operations -/

/-- A store operation with its arguments. -/
inductive Query where
  | create (fields : Fields Value)
  | findAll (filter : Option (Fields Value))
  | find (filter : Filter)
  | update (id : UInt64) (patch : Fields Value)
  | delete (target : Target)
  | count

namespace Query

/-- Understand the arguments of an operation. Mirrors the checks that `call` makes for each
`DbOp`, with `expect_exactly` and `expect_at_most` for their number. -/
def ofArguments (heap : Heap) : Operation → List Value → Except BadArgument Query
  | .create, [] => .ok (.create [])
  | .create, [v] => (Argument.fields heap v).map .create
  | .create, args => .error (.atMost 1 args.length)
  | .findAll, [] => .ok (.findAll none)
  | .findAll, [.null] => .ok (.findAll none)
  | .findAll, [v] => (Argument.fields heap v).map (fun fields => .findAll (some fields))
  | .findAll, args => .error (.atMost 1 args.length)
  | .find, [v] =>
    if Argument.namesRecord v then (Argument.id heap v).map (fun id => .find (.byId id))
    else (Argument.fields heap v).map (fun fields => .find (.fields fields))
  | .find, args => .error (.exactly 1 args.length)
  | .update, [v, patch] => do
    -- A bad id is reported even if the patch is bad too.
    let id ← Argument.id heap v
    let patch ← Argument.fields heap patch
    return .update id patch
  | .update, args => .error (.exactly 2 args.length)
  | .delete, [v] =>
    if Argument.namesRecord v then (Argument.id heap v).map (fun id => .delete (.id id))
    else (Argument.fields heap v).map (fun fields => .delete (.matching (.fields fields)))
  | .delete, args => .error (.exactly 1 args.length)
  | .count, [] => .ok .count
  | .count, args => .error (.exactly 0 args.length)

/-- Carry out an operation on an entity. Mirrors what `call` does for each `DbOp` once the
arguments are read. -/
def perform (s : Store) (entity : String) : Query → Except NotFound (Value × Store)
  | .create fields =>
    let (h, s) := s.create entity fields
    .ok (.record h, s)
  | .findAll filter => .ok (.list ((s.findAll entity (filter.map .fields)).map .record), s)
  | .find filter => (s.find entity filter).map (fun h => (.record h, s))
  | .update id patch => (s.update entity id patch).map (fun (h, s) => (.record h, s))
  | .delete target =>
    let (n, s) := s.delete entity target
    .ok (.num (Decimal.floatOfNat n), s)
  | .count => .ok (.num (Decimal.floatOfNat (s.count entity)), s)

end Query

namespace Builtin

def callOn (s : Store) (entity : String) (operation : Operation) (args : List Value) :
    Except Fault (Value × Store) :=
  match Query.ofArguments s.heap operation args with
  | .error why => .error (.badArgument (database (some entity) operation).name why)
  | .ok query =>
    match query.perform s entity with
    | .ok done => .ok done
    | .error what => .error (.notFound what)

/-- Call a store operation whose entity is fixed, or is the first argument. -/
def callDatabase (s : Store) (entity : Option String) (operation : Operation) (args : List Value) :
    Except Fault (Value × Store) :=
  match entity, args with
  | some entity, args => callOn s entity operation args
  | none, .str entity :: args => callOn s entity operation args
  | none, v :: _ => .error (.badArgument (database none operation).name (.entityKind v.kind))
  | none, [] => .error (.badArgument (database none operation).name .missingEntity)

/-- Call a function. Mirrors `call_stdlib_func`. -/
def call (f : Builtin) (args : List Value) (w : World) : Except Fault (Value × World) :=
  match f with
  | .log => .ok (.null, w.logLine (" ".intercalate (args.map w.heap.display)))
  | .now =>
    if args.isEmpty then .ok (.num (Decimal.floatOfInt w.now), w)
    else .error (.badArgument "now" (.exactly 0 args.length))
  | .database entity operation =>
    (callDatabase w.store entity operation args).map (fun (v, s) => (v, { w with store := s }))

end Builtin

end ServiceEngine
