import ServiceEngine.Json.Document

/-!
# Expression and statement trees

The bodies of endpoints and jobs are lists of statements over expressions. Trees are data: they are
read from JSON, run, and never changed.
-/

namespace ServiceEngine

/-- An operator between two operands. Mirrors `BinaryOp`. -/
inductive BinaryOp where
  | add
  | sub
  | mul
  | div
  | eq
  | ne
  | lt
  | le
  | gt
  | ge
  | and
  | or
  deriving DecidableEq, Repr

namespace BinaryOp

/-- The symbol of an operator. Mirrors `BinaryOp::symbol`. -/
def symbol : BinaryOp → String
  | .add => "+"
  | .sub => "-"
  | .mul => "*"
  | .div => "/"
  | .eq => "=="
  | .ne => "!="
  | .lt => "<"
  | .le => "<="
  | .gt => ">"
  | .ge => ">="
  | .and => "&&"
  | .or => "||"

def all : List BinaryOp := [.add, .sub, .mul, .div, .eq, .ne, .lt, .le, .gt, .ge, .and, .or]

def ofSymbol? (symbol : String) : Option BinaryOp := all.find? (fun op => op.symbol = symbol)

theorem ofSymbol?_symbol (op : BinaryOp) : ofSymbol? op.symbol = some op := by
  cases op <;> decide

end BinaryOp

/-- An operator before its operand. Mirrors `UnaryOp`. -/
inductive UnaryOp where
  | not
  | neg
  deriving DecidableEq, Repr

namespace UnaryOp

def symbol : UnaryOp → String
  | .not => "!"
  | .neg => "-"

def ofSymbol? : String → Option UnaryOp
  | "!" => some .not
  | "-" => some .neg
  | _ => none

theorem ofSymbol?_symbol (op : UnaryOp) : ofSymbol? op.symbol = some op := by
  cases op <;> rfl

end UnaryOp

/-- An expression. Mirrors `Expr`. -/
inductive Expr where
  | literal (value : Json.Datum)
  | identifier (name : String)
  | binary (operator : BinaryOp) (left right : Expr)
  | unary (operator : UnaryOp) (operand : Expr)
  | member (target : Expr) (property : String)
  | call (callee : Expr) (arguments : List Expr)
  | object (properties : List (String × Expr))
  | array (elements : List Expr)
  deriving BEq

/-- What an expression in call position is called in messages: a name, a path of names, or the
word `expression`. Mirrors `describe_callee`. -/
def Expr.describe : Expr → String
  | .identifier name => name
  | .member target property => target.describe ++ "." ++ property
  | _ => "expression"

/-- A statement. Mirrors `Stmt`. -/
inductive Stmt where
  /-- Bind a name in the current block. -/
  | letBind (name : String) (value : Expr)
  /-- Give a bound name another value. -/
  | assign (name : String) (value : Expr)
  /-- End the body with a value. -/
  | ret (value : Option Expr)
  /-- Run one of two blocks. -/
  | branch (condition : Expr) (thenBody : List Stmt) (elseBody : Option (List Stmt))
  /-- Run a block for each item of a list. -/
  | forEach (item : String) (collection : Expr) (body : List Stmt)
  /-- Evaluate for the effect. -/
  | expression (expression : Expr)
  deriving BEq

/-- The short description of a statement in messages. Mirrors `Stmt::label`. -/
def Stmt.label : Stmt → String
  | .letBind name _ => "let " ++ name
  | .assign name _ => "assign " ++ name
  | .ret _ => "return"
  | .branch _ _ _ => "if"
  | .forEach item _ _ => "for " ++ item
  | .expression _ => "expression"

end ServiceEngine
