import ServiceEngine.Exec.Call
import ServiceEngine.Exec.Operator
import ServiceEngine.Exec.Scope

/-!
# Evaluating expressions

An expression is evaluated in a frame of a scope, from left to right. Evaluation never changes the
scope; it reaches the world only through calls. A callee is evaluated, and refused if it is no
function, before its arguments; `&&` and `||` evaluate their right operand only if it decides.
-/

namespace ServiceEngine.Expr

/-- Read the heap and compute. -/
def look (f : Heap → Except Fault Value) : Action Value := do
  match f (← Action.heap) with
  | .ok v => return v
  | .error fault => throw fault

mutual

/-- The value of an expression in a frame. Mirrors `eval_expr`. -/
def eval (scope : Scope) (place : FrameId) : Expr → Action Value
  | .literal value => return Value.ofJson value.json
  | .identifier name =>
    match scope.get? place name with
    | some v => return v
    | none => throw (.unbound name)
  | .member target property => do
    let v ← eval scope place target
    look (fun heap => heap.property v property)
  | .binary .and left right => do
    let l ← eval scope place left
    if l.isTruthy then
      let r ← eval scope place right
      return .bool r.isTruthy
    else return .bool false
  | .binary .or left right => do
    let l ← eval scope place left
    if l.isTruthy then return .bool true
    else
      let r ← eval scope place right
      return .bool r.isTruthy
  | .binary operator left right => do
    let l ← eval scope place left
    let r ← eval scope place right
    look (fun heap => operator.apply heap l r)
  | .unary operator operand => do
    let v ← eval scope place operand
    look (fun _ => operator.apply v)
  | .call callee arguments => do
    -- A callee that is no function is refused before any argument is evaluated.
    match ← eval scope place callee with
    | .func f =>
      let args ← evalAll scope place arguments
      Action.atomically (f.call args)
    | _ => throw (.notCallable callee.describe)
  | .object properties => return .obj (← evalFields scope place [] properties)
  | .array elements => return .list (← evalAll scope place elements)

def evalAll (scope : Scope) (place : FrameId) : List Expr → Action (List Value)
  | [] => return []
  | e :: rest => do
    let v ← eval scope place e
    let vs ← evalAll scope place rest
    return v :: vs

/-- The fields that properties describe, from left to right, written over `before`. -/
def evalFields (scope : Scope) (place : FrameId) (before : Fields Value) :
    List (String × Expr) → Action (Fields Value)
  | [] => return before
  | (name, e) :: rest => do
    let v ← eval scope place e
    evalFields scope place (before.insert name v) rest

end

theorem eval_literal (scope : Scope) (place : FrameId) (value : Json.Datum) :
    eval scope place (.literal value) = pure (Value.ofJson value.json) := by
  rw [eval]

end ServiceEngine.Expr
