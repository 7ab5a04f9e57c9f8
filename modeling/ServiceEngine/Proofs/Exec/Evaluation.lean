import Mathlib
import ServiceEngine.Exec.Eval

/-!
# How evaluation runs

Equations for running an action and for evaluating each form of expression: an operand that fails ends
the evaluation with the world it leaves, and a value is handed on. The twelve operators between two
operands have one equation (`Expr.run_binary`), in which `BinaryOp.settles?` says when the left operand
decides alone.
-/

namespace ServiceEngine

/-! ## Actions -/

namespace Action

variable {α β : Type}

@[simp] theorem run_pure (a : α) (w : World) : (pure a : Action α).run w = (.ok a, w) := rfl

@[simp] theorem run_heap (w : World) : Action.heap.run w = (.ok w.heap, w) := rfl

/-- Go on with a value; a fault ends here. -/
def andThen (result : Except Fault α × World) (next : α → World → Except Fault β × World) :
    Except Fault β × World :=
  match result with
  | (.ok a, w) => next a w
  | (.error fault, w) => (.error fault, w)

@[simp] theorem andThen_ok (a : α) (w : World) (next : α → World → Except Fault β × World) :
    andThen (.ok a, w) next = next a w := rfl

/-- Actions one after the other: the second runs in the world that the first leaves. -/
theorem run_bind (x : Action α) (f : α → Action β) (w : World) :
    (x >>= f).run w = andThen (x.run w) (fun a w => (f a).run w) := by
  unfold run
  rw [ExceptT.run_bind, StateT.run_bind]
  rcases StateT.run (ExceptT.run x) w with ⟨fault | a, w'⟩
  · rfl
  · rfl

/-- A step that leaves the world alone when it fails either changes it or reports a fault. -/
theorem run_atomically (step : World → Except Fault (α × World)) (w : World) :
    (Action.atomically step).run w = match step w with
      | .ok (a, w) => (.ok a, w)
      | .error fault => (.error fault, w) := by
  unfold atomically
  rw [run_bind]
  have hget : (get : Action World).run w = (.ok w, w) := rfl
  rw [hget, andThen_ok]
  cases step w <;> rfl

end Action

/-! ## Operators -/

namespace BinaryOp

/-- The result of an operator whose left operand decides alone. -/
def settles? (operator : BinaryOp) (l : Value) : Option Value :=
  match operator with
  | .and => if l.isTruthy then none else some (.bool false)
  | .or => if l.isTruthy then some (.bool true) else none
  | _ => none

/-- The result of an operator whose operands are both evaluated. -/
def combine (operator : BinaryOp) (heap : Heap) (l r : Value) : Except Fault Value :=
  match operator with
  | .and => .ok (.bool r.isTruthy)
  | .or => .ok (.bool r.isTruthy)
  | operator => operator.apply heap l r

end BinaryOp

/-! ## Expressions -/

namespace Expr

/-- What holds of expressions, of lists of them and of properties, by induction over all three. -/
theorem operand_induction {P : Expr → Prop} {Q : List Expr → Prop} {R : List (String × Expr) → Prop}
    (literal : ∀ value, P (.literal value))
    (identifier : ∀ name, P (.identifier name))
    (binary : ∀ operator left right, P left → P right → P (.binary operator left right))
    (unary : ∀ operator operand, P operand → P (.unary operator operand))
    (member : ∀ target property, P target → P (.member target property))
    (call : ∀ callee arguments, P callee → Q arguments → P (.call callee arguments))
    (object : ∀ properties, R properties → P (.object properties))
    (array : ∀ elements, Q elements → P (.array elements))
    (nil : Q []) (cons : ∀ e rest, P e → Q rest → Q (e :: rest))
    (noFields : R []) (field : ∀ name e rest, P e → R rest → R ((name, e) :: rest)) :
    (∀ e, P e) ∧ (∀ es, Q es) ∧ ∀ properties, R properties := by
  -- The recursor has pairs of a name and an expression as a fourth kind of tree.
  have hfield : ∀ (entry : String × Expr) (rest : List (String × Expr)), P entry.2 → R rest →
      R (entry :: rest) := fun entry rest => field entry.1 entry.2 rest
  exact ⟨@Expr.rec P Q R (fun entry => P entry.2) literal identifier binary unary member call object array
      nil cons noFields hfield (fun _ _ h => h),
    @Expr.rec_1 P Q R (fun entry => P entry.2) literal identifier binary unary member call object array
      nil cons noFields hfield (fun _ _ h => h),
    @Expr.rec_2 P Q R (fun entry => P entry.2) literal identifier binary unary member call object array
      nil cons noFields hfield (fun _ _ h => h)⟩

variable (scope : Scope) (place : FrameId)

theorem run_look (f : Heap → Except Fault Value) (w : World) : (look f).run w = (f w.heap, w) := by
  rw [look, Action.run_bind, Action.run_heap, Action.andThen_ok]
  cases f w.heap <;> rfl

theorem run_literal (value : Json.Datum) (w : World) :
    ((Expr.literal value).eval scope place).run w = (.ok (Value.ofJson value.json), w) := by
  rw [Expr.eval_literal, Action.run_pure]

theorem run_identifier (name : String) (w : World) :
    ((Expr.identifier name).eval scope place).run w =
      (((scope.get? place name).elim (.error (.unbound name)) .ok : Except Fault Value), w) := by
  rw [Expr.eval]
  cases scope.get? place name <;> rfl

theorem run_member (target : Expr) (property : String) (w : World) :
    ((Expr.member target property).eval scope place).run w =
      Action.andThen ((target.eval scope place).run w) (fun v w => (w.heap.property v property, w)) := by
  rw [Expr.eval, Action.run_bind]
  simp only [run_look]

/-- The operators between two operands: the right one is evaluated unless the left one settles it. -/
theorem run_binary (operator : BinaryOp) (left right : Expr) (w : World) :
    ((Expr.binary operator left right).eval scope place).run w =
      Action.andThen ((left.eval scope place).run w) (fun l w =>
        match operator.settles? l with
        | some v => (.ok v, w)
        | none => Action.andThen ((right.eval scope place).run w)
            (fun r w => (operator.combine w.heap l r, w))) := by
  -- `&&` and `||` have rules of their own; all other operators evaluate both operands.
  cases operator with
  | and =>
    rw [Expr.eval, Action.run_bind]
    congr 1
    funext l w
    by_cases h : l.isTruthy = true
    · simp only [h, if_true, BinaryOp.settles?, BinaryOp.combine, Action.run_bind, Action.run_pure]
    · simp [h, BinaryOp.settles?]
  | or =>
    rw [Expr.eval, Action.run_bind]
    congr 1
    funext l w
    by_cases h : l.isTruthy = true
    · simp [h, BinaryOp.settles?]
    · simp only [h, Bool.false_eq_true, if_false, BinaryOp.settles?, BinaryOp.combine, Action.run_bind,
        Action.run_pure]
  | _ =>
    rw [Expr.eval]
    · simp only [Action.run_bind, run_look, BinaryOp.settles?, BinaryOp.combine]
    -- The rule for the other operators asks that the operator is neither of the two.
    all_goals
      intro h
      cases h

theorem run_unary (operator : UnaryOp) (operand : Expr) (w : World) :
    ((Expr.unary operator operand).eval scope place).run w =
      Action.andThen ((operand.eval scope place).run w) (fun v w => (operator.apply v, w)) := by
  rw [Expr.eval, Action.run_bind]
  simp only [run_look]

/-- A call: the callee has to be a function before any argument is evaluated. -/
theorem run_call (callee : Expr) (arguments : List Expr) (w : World) :
    ((Expr.call callee arguments).eval scope place).run w =
      Action.andThen ((callee.eval scope place).run w) (fun v w =>
        match v with
        | .func f => Action.andThen ((Expr.evalAll scope place arguments).run w)
            (fun args w => (Action.atomically (f.call args)).run w)
        | _ => (.error (.notCallable callee.describe), w)) := by
  rw [Expr.eval, Action.run_bind]
  congr 1
  funext v w
  cases v with
  | func f => exact Action.run_bind _ _ _
  | _ => rfl

theorem run_object (properties : List (String × Expr)) (w : World) :
    ((Expr.object properties).eval scope place).run w =
      Action.andThen ((Expr.evalFields scope place [] properties).run w)
        (fun fields w => (.ok (.obj fields), w)) := by
  rw [Expr.eval, Action.run_bind]
  simp only [Action.run_pure]

theorem run_array (elements : List Expr) (w : World) :
    ((Expr.array elements).eval scope place).run w =
      Action.andThen ((Expr.evalAll scope place elements).run w)
        (fun items w => (.ok (.list items), w)) := by
  rw [Expr.eval, Action.run_bind]
  simp only [Action.run_pure]

theorem run_evalAll_nil (w : World) : (Expr.evalAll scope place []).run w = (.ok [], w) := by
  rw [Expr.evalAll, Action.run_pure]

theorem run_evalAll_cons (e : Expr) (rest : List Expr) (w : World) :
    (Expr.evalAll scope place (e :: rest)).run w =
      Action.andThen ((e.eval scope place).run w) (fun v w =>
        Action.andThen ((Expr.evalAll scope place rest).run w) (fun vs w => (.ok (v :: vs), w))) := by
  rw [Expr.evalAll]
  simp only [Action.run_bind, Action.run_pure]

theorem run_evalFields_nil (before : Fields Value) (w : World) :
    (Expr.evalFields scope place before []).run w = (.ok before, w) := by
  rw [Expr.evalFields, Action.run_pure]

theorem run_evalFields_cons (before : Fields Value) (name : String) (e : Expr)
    (rest : List (String × Expr)) (w : World) :
    (Expr.evalFields scope place before ((name, e) :: rest)).run w =
      Action.andThen ((e.eval scope place).run w)
        (fun v w => (Expr.evalFields scope place (before.insert name v) rest).run w) := by
  rw [Expr.evalFields, Action.run_bind]

end Expr

end ServiceEngine
