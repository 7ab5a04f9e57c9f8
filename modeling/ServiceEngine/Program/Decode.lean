import ServiceEngine.Program.Definition
import ServiceEngine.Program.Shape

/-!
# Definitions from JSON

The readers of definitions work on documents. A tree is a value throughout: everything in it, also
what is skipped, must stand for something and respect the nesting limit. In the other definitions
only the fields that are known are asked for that.

A reader's `room` is the number of containers that may still be nested.
-/

namespace ServiceEngine

open Json (Document)

/-- Read a field that must be there. -/
def required {α : Type} (read : Document → Option α) (field : Option Document) : Option α :=
  field.bind read

/-- Read a field that may be missing. -/
def optional {α : Type} (default : α) (read : Document → Option α) : Option Document → Option α
  | some d => read d
  | none => some default

/-! ## Trees -/

def Expr.kinds : List String :=
  ["literal", "identifier", "binary", "unary", "member", "call", "object", "array"]

def Stmt.kinds : List String := ["let", "assign", "return", "if", "for", "expression"]

/-- Read a property of an object expression. -/
def Expr.decodeProperty (read : Document → Option Expr) (d : Document) : Option (String × Expr) := do
  match ← (← Shape.ofDocument? d).fields? ["key", "value"] with
  | [key, value] => return (← required Document.text? key, ← required read value)
  | _ => none

/-- Read an expression that nests at most as many containers as the first argument says. -/
def Expr.decode : Nat → Bool → Document → Option Expr
  | 0, _, _ => none
  | room + 1, inner, d => do
    let expr := Expr.decode room true
    let (kind, shape) ← tagged? "type" Expr.kinds inner d
    match kind with
    | "literal" =>
      match ← shape.fields? ["value"] with
      | [value] => return .literal (← required Json.Datum.ofDocument? value)
      | _ => none
    | "identifier" =>
      match ← shape.fields? ["name"] with
      | [name] => return .identifier (← required Document.text? name)
      | _ => none
    | "binary" =>
      match ← shape.fields? ["operator", "left", "right"] with
      | [operator, left, right] =>
        let operator ← BinaryOp.ofSymbol? (← required Document.word? operator)
        return .binary operator (← required expr left) (← required expr right)
      | _ => none
    | "unary" =>
      match ← shape.fields? ["operator", "operand"] with
      | [operator, operand] =>
        let operator ← UnaryOp.ofSymbol? (← required Document.word? operator)
        return .unary operator (← required expr operand)
      | _ => none
    | "member" =>
      match ← shape.fields? ["object", "property"] with
      | [target, property] =>
        return .member (← required expr target) (← required Document.text? property)
      | _ => none
    | "call" =>
      match ← shape.fields? ["callee", "arguments"] with
      | [callee, arguments] =>
        return .call (← required expr callee) (← optional [] (Document.list? expr) arguments)
      | _ => none
    | "object" =>
      match ← shape.fields? ["properties"] with
      | [properties] =>
        return .object (← required (Document.list? (Expr.decodeProperty expr)) properties)
      | _ => none
    | "array" =>
      match ← shape.fields? ["elements"] with
      | [elements] => return .array (← required (Document.list? expr) elements)
      | _ => none
    | _ => none

/-- Read a statement that nests at most as many containers as the first argument says. -/
def Stmt.decode : Nat → Bool → Document → Option Stmt
  | 0, _, _ => none
  | room + 1, inner, d => do
    let expr := Expr.decode room true
    let block := Document.list? (Stmt.decode room true)
    let (kind, shape) ← tagged? "type" Stmt.kinds inner d
    match kind with
    | "let" =>
      match ← shape.fields? ["name", "value"] with
      | [name, value] => return .letBind (← required Document.text? name) (← required expr value)
      | _ => none
    | "assign" =>
      match ← shape.fields? ["name", "value"] with
      | [name, value] => return .assign (← required Document.text? name) (← required expr value)
      | _ => none
    | "return" =>
      match ← shape.fields? ["value"] with
      | [value] => return .ret (← optional none (Document.option? expr) value)
      | _ => none
    | "if" =>
      match ← shape.fields? ["condition", "thenBody", "elseBody"] with
      | [condition, thenBody, elseBody] =>
        return .branch (← required expr condition) (← required block thenBody)
          (← optional none (Document.option? block) elseBody)
      | _ => none
    | "for" =>
      match ← shape.fields? ["item", "collection", "body"] with
      | [item, collection, body] =>
        return .forEach (← required Document.text? item) (← required expr collection)
          (← required block body)
      | _ => none
    | "expression" =>
      match ← shape.fields? ["expression"] with
      | [e] => return .expression (← required expr e)
      | _ => none
    | _ => none

/-- The expression that a document describes. -/
def Expr.ofDocument? (room : Nat) (d : Document) : Option Expr :=
  if d.isValue room then Expr.decode d.depth false d else none

/-- The statement that a document describes. -/
def Stmt.ofDocument? (room : Nat) (d : Document) : Option Stmt :=
  if d.isValue room then Stmt.decode d.depth false d else none

/-! ## Definitions -/

/-- Read the fields of a definition, which are one level further down. -/
def structure? {α : Type} (names : List String) (read : Nat → List (Option Document) → Option α) :
    Nat → Document → Option α
  | 0, _ => none
  | room + 1, d => do read room (← (← Shape.ofDocument? d).fields? names)

/-- Read the items of an array, which are one level further down. -/
def items? {α : Type} (read : Nat → Document → Option α) : Nat → Document → Option (List α)
  | 0, _ => none
  | room + 1, d => d.list? (read room)

/-- Read a value; null stands for none. -/
def value? (room : Nat) : Document → Option (Option Json.Datum) :=
  Document.option? (fun d => if d.fits room then Json.Datum.ofDocument? d else none)

/-- The property of an object expression that a document describes. Mirrors the reader of
`Property`. -/
def Expr.propertyOfDocument? : Nat → Document → Option (String × Expr) :=
  structure? ["key", "value"] (fun room fields =>
    match fields with
    | [key, value] => do
      return (← required Document.text? key, ← required (Expr.ofDocument? room) value)
    | _ => none)

/-- The field that a document describes. Mirrors the reader of `FieldDef`. -/
def Field.ofDocument? : Nat → Document → Option Field :=
  structure? ["name", "type", "default"] (fun room fields =>
    match fields with
    | [name, type, default] => do
      return { name := ← required Document.text? name
               type := ← optional none (Document.option? Document.text?) type
               default := ← optional none (value? room) default }
    | _ => none)

def Model.ofDocument? : Nat → Document → Option Model :=
  structure? ["name", "fields"] (fun room fields =>
    match fields with
    | [name, fields] => do
      return { name := ← required Document.text? name
               fields := ← optional [] (items? Field.ofDocument? room) fields }
    | _ => none)

def Method.ofDocument? (d : Document) : Option Method := d.text?.bind Method.ofName?

def Endpoint.ofDocument? : Nat → Document → Option Endpoint :=
  structure? ["method", "path", "body", "returns"] (fun room fields =>
    match fields with
    | [method, path, body, returns] => do
      return { method := ← required Method.ofDocument? method
               path := ← required Document.text? path
               body := ← optional [] (items? Stmt.ofDocument? room) body
               returns := ← optional none (value? room) returns }
    | _ => none)

def Trigger.kinds : List String := ["cron", "every", "entity"]

def Trigger.decode (d : Document) : Option Trigger := do
  let (kind, shape) ← tagged? "kind" Trigger.kinds false d
  match kind with
  | "cron" =>
    match ← shape.fields? ["pattern"] with
    | [pattern] => return .cron (← required Document.text? pattern)
    | _ => none
  | "every" =>
    match ← shape.fields? ["cadence"] with
    | [cadence] => return .every (← required Document.text? cadence)
    | _ => none
  | "entity" =>
    match ← shape.fields? ["entity", "event"] with
    | [entity, event] =>
      return .lifecycle (← required Document.text? entity)
        (← EventKind.ofName? (← required Document.word? event))
    | _ => none
  | _ => none

/-- The trigger that a document describes. -/
def Trigger.ofDocument? (room : Nat) (d : Document) : Option Trigger :=
  if d.isValue room then Trigger.decode d else none

def Job.ofDocument? : Nat → Document → Option Job :=
  structure? ["name", "trigger", "delay", "body"] (fun room fields =>
    match fields with
    | [name, trigger, delay, body] => do
      return { name := ← required Document.text? name
               trigger := ← required (Trigger.ofDocument? room) trigger
               delay := ← optional none (Document.option? Document.text?) delay
               body := ← optional [] (items? Stmt.ofDocument? room) body }
    | _ => none)

/-- The program that a document describes. Mirrors the reader of `Program`. -/
def Program.ofDocument? : Nat → Document → Option Program :=
  structure? ["models", "endpoints", "jobs"] (fun room fields =>
    match fields with
    | [models, endpoints, jobs] => do
      return { models := ← optional [] (items? Model.ofDocument? room) models
               endpoints := ← optional [] (items? Endpoint.ofDocument? room) endpoints
               jobs := ← optional [] (items? Job.ofDocument? room) jobs }
    | _ => none)

/-! ## Texts and values -/

/-- What a text describes, by one of the readers above. Mirrors `Program::from_json`. -/
def ofText? {α : Type} (read : Nat → Document → Option α) (text : String) : Option α :=
  (Document.ofText? text).bind (read Document.nestingLimit)

/-- What a value describes, by one of the readers above; values may nest as they like. -/
def ofJson? {α : Type} (read : Nat → Document → Option α) (j : Json) : Option α :=
  let d := Document.ofJson j
  read d.depth d

end ServiceEngine
