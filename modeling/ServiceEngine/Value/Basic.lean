import ServiceEngine.Fields

/-!
# Runtime values

The values that service bodies compute with: plain data, live handles to stored records, and the
built-in names `db`, `log` and `now` with what is reached through them.
-/

namespace ServiceEngine

/-- An operation of the record store. Mirrors `DbOp`. -/
inductive Operation where
  | create
  | findAll
  | find
  | update
  | delete
  | count
  deriving DecidableEq, Repr

namespace Operation

/-- The name that reaches the operation behind `db`. -/
def name : Operation → String
  | .create => "create"
  | .findAll => "findAll"
  | .find => "find"
  | .update => "update"
  | .delete => "delete"
  | .count => "count"

def all : List Operation := [.create, .findAll, .find, .update, .delete, .count]

/-- The operation of a name. Mirrors `DbOp::from_name`. -/
def ofName? (name : String) : Option Operation := all.find? (fun op => op.name = name)

theorem ofName?_name (op : Operation) : ofName? op.name = some op := by
  cases op <;> decide

theorem name_of_ofName? {name : String} {op : Operation} (h : ofName? name = some op) : op.name = name := by
  simpa using List.find?_some h

end Operation

/-- A function that bodies can call. A store operation reached as `db.Entity.op` has its entity;
one reached as `db.op` takes the entity from its first argument. Mirrors `StdlibFunc`. -/
inductive Builtin where
  | log
  | now
  | database (entity : Option String) (operation : Operation)
  deriving DecidableEq, Repr

/-- The name of a function, as messages and JSON show it. -/
def Builtin.name : Builtin → String
  | .log => "log"
  | .now => "now"
  | .database (some entity) operation => "db." ++ entity ++ "." ++ operation.name
  | .database none operation => "db." ++ operation.name

/-- The place of a record in a heap. Whoever holds the handle sees later writes to the record. -/
structure Handle where
  index : Nat
  deriving DecidableEq, Repr

/-- A runtime value. Mirrors `Val`. -/
inductive Value where
  | null
  | bool (b : Bool)
  | num (x : Float)
  | str (s : String)
  | list (items : List Value)
  | obj (fields : List (String × Value))
  | record (handle : Handle)
  | db
  | entity (name : String)
  | func (f : Builtin)
  deriving Inhabited

inductive Kind where
  | null
  | boolean
  | number
  | string
  | list
  | object
  | record
  | db
  | entity
  | function
  deriving DecidableEq, Repr

def Kind.name : Kind → String
  | .null => "null"
  | .boolean => "boolean"
  | .number => "number"
  | .string => "string"
  | .list => "list"
  | .object => "object"
  | .record => "record"
  | .db => "db"
  | .entity => "entity"
  | .function => "function"

namespace Value

/-- The kind of a value. Mirrors `Val::type_name`. -/
def kind : Value → Kind
  | .null => .null
  | .bool _ => .boolean
  | .num _ => .number
  | .str _ => .string
  | .list _ => .list
  | .obj _ => .object
  | .record _ => .record
  | .db => .db
  | .entity _ => .entity
  | .func _ => .function

/-- Whether a condition takes the value for true: all values but null, false, zero, not-a-number
and the empty string. Mirrors `Val::is_truthy`. -/
def isTruthy : Value → Bool
  | .null => false
  | .bool b => b
  | .num x => !(x == 0) && !x.isNaN
  | .str s => !s.isEmpty
  | _ => true

end Value

end ServiceEngine
