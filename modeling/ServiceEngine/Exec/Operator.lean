import ServiceEngine.Exec.Fault

/-!
# Operators and properties

What operators do with two values, and what a value's properties are. Both only read the heap.
-/

namespace ServiceEngine

/-- Compare two numbers or two strings; strings compare by code points, and not-a-number compares
with nothing. -/
def BinaryOp.order (operator : BinaryOp) (l r : Value) : Except Fault Value :=
  match l, r with
  | .num a, .num b =>
    .ok (.bool (match operator with
      | .lt => decide (a < b)
      | .le => decide (a ≤ b)
      | .gt => decide (b < a)
      -- The four order operators are the only ones that come here, so the last arm is `>=`.
      | _ => decide (b ≤ a)))
  | .str a, .str b =>
    .ok (.bool (match operator with
      | .lt => decide (a < b)
      | .le => !decide (b < a)
      | .gt => decide (b < a)
      | _ => !decide (a < b)))
  | _, _ => .error (.mismatch (.operands operator l.kind r.kind))

/-- Subtract, multiply or divide two numbers. -/
def BinaryOp.arithmetic (operator : BinaryOp) (l r : Value) : Except Fault Value :=
  match l, r with
  | .num a, .num b =>
    match operator with
    | .sub => .ok (.num (a - b))
    | .mul => .ok (.num (a * b))
    -- Division is the one operator left.
    | _ => if b == 0 then .error .divisionByZero else .ok (.num (a / b))
  | _, _ => .error (.mismatch (.operands operator l.kind r.kind))

/-- Apply an operator to two values. The logical ones give a truth value, whatever the operands.
Mirrors `apply_binary`. -/
def BinaryOp.apply (operator : BinaryOp) (heap : Heap) (l r : Value) : Except Fault Value :=
  match operator with
  | .eq => .ok (.bool (heap.equal l r))
  | .ne => .ok (.bool (!heap.equal l r))
  | .lt | .le | .gt | .ge => operator.order l r
  | .add =>
    match l, r with
    | .num a, .num b => .ok (.num (a + b))
    | .str a, .str b => .ok (.str (a ++ b))
    | _, _ => .error (.mismatch (.operands operator l.kind r.kind))
  | .sub | .mul | .div => operator.arithmetic l r
  | .and => .ok (.bool (l.isTruthy && r.isTruthy))
  | .or => .ok (.bool (l.isTruthy || r.isTruthy))

def UnaryOp.apply (operator : UnaryOp) (v : Value) : Except Fault Value :=
  match operator, v with
  | .not, v => .ok (.bool (!v.isTruthy))
  | .neg, .num x => .ok (.num (-x))
  | .neg, v => .error (.mismatch (.negation v.kind))

/-- The property of a value: behind `db` an operation or an entity, behind an entity an operation,
the length of a list or string, and the fields of objects and records. Mirrors `eval_member`. -/
def Heap.property (heap : Heap) (target : Value) (name : String) : Except Fault Value :=
  match target with
  | .db =>
    match Operation.ofName? name with
    | some operation => .ok (.func (.database none operation))
    | none => .ok (.entity name)
  | .entity entity =>
    match Operation.ofName? name with
    | some operation => .ok (.func (.database (some entity) operation))
    | none => .error (.mismatch (.operation entity name))
  | v =>
    match v, name with
    | .list items, "length" => .ok (.num (Decimal.floatOfNat items.length))
    | .str s, "length" => .ok (.num (Decimal.floatOfNat s.length))
    | v, name =>
      match heap.field? v name with
      | some field => .ok field
      | none => .error (.mismatch (.property name v.kind))

end ServiceEngine
