import ServiceEngine.Exec.Eval

/-!
# Running statements

A block runs its statements in order until one ends the body or fails. The blocks of `if` and `for`
run in a frame of their own, opened before and released after, however the block ends; each pass of
a loop has a fresh one. A failure carries the index of its statement in every block around it.
-/

namespace ServiceEngine

/-- A scope and the world around it. Mirrors `VM`. -/
structure Machine where
  scope : Scope
  world : World
  deriving Inhabited

/-- How a statement ends: the next one follows, or the body ends with a value. Mirrors
`Control`. -/
inductive Flow where
  | next
  | done (value : Value)

/-- Why a statement fails: by itself, or inside one of its blocks. -/
inductive Trouble where
  | here (fault : Fault)
  | inside (failure : Failure)

/-- The failure of a statement at its place in a block. Mirrors `Failure::located`. -/
def Trouble.locate (index : Nat) (statement : Stmt) : Trouble → Failure
  | .here fault => ⟨[index], statement.label, fault⟩
  | .inside failure => failure.within index

namespace Machine

def eval (m : Machine) (place : FrameId) (e : Expr) : Except Fault Value × Machine :=
  let (result, world) := (e.eval m.scope place).run m.world
  (result, { m with world })

/-- Run `step` in a fresh frame inside `parent`, and release the frame. Mirrors
`run_child_block`. -/
def inChild {α : Type} (m : Machine) (parent : FrameId) (step : FrameId → Machine → α × Machine) :
    α × Machine :=
  let (child, scope) := m.scope.child parent
  let (result, m) := step child { m with scope }
  (result, { m with scope := m.scope.release child })

def bind (m : Machine) (place : FrameId) (name : String) (value : Value) : Machine :=
  { m with scope := m.scope.put place name value }

/-- Run `step` for each item until one ends the body or fails. -/
def forItems (step : Value → Machine → Except Failure Flow × Machine) :
    List Value → Machine → Except Failure Flow × Machine
  | [], m => (.ok .next, m)
  | item :: rest, m =>
    match step item m with
    | (.ok .next, m) => forItems step rest m
    | (result, m) => (result, m)

end Machine

/-- The result of a block inside a statement. -/
def Flow.nested : Except Failure Flow × Machine → Except Trouble Flow × Machine
  | (.ok flow, m) => (.ok flow, m)
  | (.error failure, m) => (.error (.inside failure), m)

mutual

/-- Run a statement in a frame. Mirrors `execute_stmt` and the functions for the single
statements. -/
def Stmt.run (place : FrameId) : Stmt → Machine → Except Trouble Flow × Machine
  | .letBind name value, m =>
    match m.eval place value with
    | (.ok v, m) => (.ok .next, m.bind place name v)
    | (.error fault, m) => (.error (.here fault), m)
  | .assign name value, m =>
    match m.eval place value with
    | (.ok v, m) =>
      match m.scope.assign? place name v with
      | some scope => (.ok .next, { m with scope })
      | none => (.error (.here (.unbound name)), m)
    | (.error fault, m) => (.error (.here fault), m)
  | .ret none, m => (.ok (.done .null), m)
  | .ret (some value), m =>
    match m.eval place value with
    | (.ok v, m) => (.ok (.done v), m)
    | (.error fault, m) => (.error (.here fault), m)
  | .branch condition thenBody none, m =>
    match m.eval place condition with
    | (.ok v, m) =>
      if v.isTruthy then
        Flow.nested (m.inChild place (fun child m => Stmt.runFrom child 0 thenBody m))
      else (.ok .next, m)
    | (.error fault, m) => (.error (.here fault), m)
  | .branch condition thenBody (some elseBody), m =>
    match m.eval place condition with
    | (.ok v, m) =>
      if v.isTruthy then
        Flow.nested (m.inChild place (fun child m => Stmt.runFrom child 0 thenBody m))
      else Flow.nested (m.inChild place (fun child m => Stmt.runFrom child 0 elseBody m))
    | (.error fault, m) => (.error (.here fault), m)
  | .forEach item collection body, m =>
    match m.eval place collection with
    | (.ok (.list items), m) =>
      Flow.nested (Machine.forItems
        (fun v m => m.inChild place (fun child m => Stmt.runFrom child 0 body (m.bind child item v)))
        items m)
    | (.ok v, m) => (.error (.here (.notIterable v.kind)), m)
    | (.error fault, m) => (.error (.here fault), m)
  | .expression e, m =>
    match m.eval place e with
    | (.ok _, m) => (.ok .next, m)
    | (.error fault, m) => (.error (.here fault), m)

/-- Run the statements of a block in a frame, the first of them at place `index` of the block.
Mirrors `run_block`. -/
def Stmt.runFrom (place : FrameId) (index : Nat) : List Stmt → Machine → Except Failure Flow × Machine
  | [], m => (.ok .next, m)
  | statement :: rest, m =>
    match Stmt.run place statement m with
    | (.ok .next, m) => Stmt.runFrom place (index + 1) rest m
    | (.ok (.done v), m) => (.ok (.done v), m)
    | (.error trouble, m) => (.error (trouble.locate index statement), m)

end

namespace Machine

/-- The names that every body can use, unless they are bound to something else. Mirrors
`inject_stdlib`. -/
def withBuiltins (vars : Fields Value) : Fields Value :=
  ((vars.insertIfNew "db" .db).insertIfNew "log" (.func .log)).insertIfNew "now" (.func .now)

/-- A machine whose root frame binds `vars` and the built-in names. Mirrors
`VM::with_bindings`. -/
def start (vars : Fields Value) (world : World) : Machine :=
  ⟨Scope.ofVars (withBuiltins vars), world⟩

def runBlock (m : Machine) (body : List Stmt) : Except Failure Flow × Machine :=
  Stmt.runFrom Scope.root 0 body m

/-- Run a body in the root frame: the value it ends with, or null. Mirrors `VM::execute_block`. -/
def runBody (m : Machine) (body : List Stmt) : Except Failure Value × Machine :=
  match m.runBlock body with
  | (.ok .next, m) => (.ok .null, m)
  | (.ok (.done v), m) => (.ok v, m)
  | (.error failure, m) => (.error failure, m)

/-- Run a single statement in the root frame. Mirrors `VM::execute`. -/
def step (m : Machine) (statement : Stmt) : Except Failure Flow × Machine :=
  match statement.run Scope.root m with
  | (.ok flow, m) => (.ok flow, m)
  | (.error trouble, m) => (.error (trouble.locate 0 statement), m)

/-- The value of a name in the root frame. Mirrors `VM::get`. -/
def get? (m : Machine) (name : String) : Option Value := m.scope.get? Scope.root name

end Machine

end ServiceEngine
