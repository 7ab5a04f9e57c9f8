import ServiceEngine.Decimal.Layout
import ServiceEngine.Program.Expr
import ServiceEngine.Store.Basic

/-!
# Why a body fails

A `Fault` is the reason why an expression or statement fails. A `Failure` is a fault together with
the place of the statement that raised it: one index for each enclosing block. The wording of both
is fixed here and nowhere else.
-/

namespace ServiceEngine

/-- A value of the wrong kind. -/
inductive Mismatch where
  /-- An operator between operands it does not take. -/
  | operands (operator : BinaryOp) (left right : Kind)
  /-- The negation of something that is no number. -/
  | negation (operand : Kind)
  /-- A property of a value that has none. -/
  | property (name : String) (target : Kind)
  /-- An unknown operation of an entity. -/
  | operation (entity name : String)
  deriving DecidableEq, Repr

def Mismatch.message : Mismatch → String
  | .operands operator left right =>
    "cannot apply '" ++ operator.symbol ++ "' to " ++ left.name ++ " and " ++ right.name
  | .negation operand => "cannot negate a value of type " ++ operand.name
  | .property name target => "cannot read property '" ++ name ++ "' of " ++ target.name
  | .operation entity name => "db." ++ entity ++ " has no operation '" ++ name ++ "'"

/-- What is wrong with the arguments of a call. -/
inductive BadArgument where
  | entityKind (given : Kind)
  | missingEntity
  | atMost (limit given : Nat)
  | exactly (wanted given : Nat)
  | notObject (given : Kind)
  | notId (given : Kind)
  | idText (text : String)
  | idNumber (x : Float)

def BadArgument.message : BadArgument → String
  | .entityKind given => "entity name must be a string, got " ++ given.name
  | .missingEntity => "missing entity name"
  | .atMost limit given =>
    "expected at most " ++ toString limit ++ " arguments, got " ++ toString given
  | .exactly wanted given => "expected " ++ toString wanted ++ " arguments, got " ++ toString given
  | .notObject given => "expected an object, got " ++ given.name
  | .notId given => "expected a record id, got " ++ given.name
  | .idText text => "'" ++ text ++ "' is not a record id"
  | .idNumber x => Decimal.plain.write x ++ " is not a record id"

/-- Why an expression or statement fails. Mirrors `RuntimeError`. -/
inductive Fault where
  | unbound (name : String)
  | mismatch (why : Mismatch)
  | notCallable (callee : String)
  | notIterable (given : Kind)
  | notFound (what : NotFound)
  | badArgument (function : String) (why : BadArgument)
  | divisionByZero

def Fault.message : Fault → String
  | .unbound name => "unbound name '" ++ name ++ "'"
  | .mismatch why => "type mismatch: " ++ why.message
  | .notCallable callee => callee ++ " is not callable"
  | .notIterable given => "cannot iterate over a value of type " ++ given.name
  | .notFound what => "no " ++ what.entity ++ " record matches " ++ what.criteria
  | .badArgument function why => "invalid argument to " ++ function ++ ": " ++ why.message
  | .divisionByZero => "division by zero"

/-- A fault, the label of the statement that raised it, and the index of that statement and of
each enclosing one in its block, outermost first. Mirrors `ExecError`. -/
structure Failure where
  path : List Nat
  statement : String
  fault : Fault

namespace Failure

/-- The failure of a statement inside the statement at `index`. Mirrors `ExecError::nested_in`. -/
def within (index : Nat) (failure : Failure) : Failure :=
  { failure with path := index :: failure.path }

def message (failure : Failure) : String :=
  "statement " ++ ".".intercalate (failure.path.map toString) ++ " (" ++ failure.statement ++ "): " ++
    failure.fault.message

end Failure

end ServiceEngine
