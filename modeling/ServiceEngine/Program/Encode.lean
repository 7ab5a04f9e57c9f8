import ServiceEngine.Program.Definition

/-!
# Definitions as JSON

Every field of a definition is written, an absent one as null, and a node of a tree carries its kind
under `type` (for triggers under `kind`). The members stand in ascending order of their names.
-/

namespace ServiceEngine

def encodeText? : Option String → Json
  | some s => .string s
  | none => .null

def encodeDatum? : Option Json.Datum → Json
  | some d => d.json
  | none => .null

mutual

def Expr.encode : Expr → Json
  | .literal value => .object [("type", .string "literal"), ("value", value.json)]
  | .identifier name => .object [("name", .string name), ("type", .string "identifier")]
  | .binary operator left right =>
    .object [("left", left.encode), ("operator", .string operator.symbol), ("right", right.encode),
      ("type", .string "binary")]
  | .unary operator operand =>
    .object [("operand", operand.encode), ("operator", .string operator.symbol),
      ("type", .string "unary")]
  | .member target property =>
    .object [("object", target.encode), ("property", .string property), ("type", .string "member")]
  | .call callee arguments =>
    .object [("arguments", .array (Expr.encodeAll arguments)), ("callee", callee.encode),
      ("type", .string "call")]
  | .object properties =>
    .object [("properties", .array (Expr.encodeProperties properties)), ("type", .string "object")]
  | .array elements =>
    .object [("elements", .array (Expr.encodeAll elements)), ("type", .string "array")]

def Expr.encodeAll : List Expr → List Json
  | [] => []
  | e :: rest => e.encode :: Expr.encodeAll rest

def Expr.encodeProperties : List (String × Expr) → List Json
  | [] => []
  | property :: rest => Expr.encodeProperty property :: Expr.encodeProperties rest

def Expr.encodeProperty : String × Expr → Json
  | (key, e) => .object [("key", .string key), ("value", e.encode)]

end

def Expr.encode? : Option Expr → Json
  | some e => e.encode
  | none => .null

mutual

def Stmt.encode : Stmt → Json
  | .letBind name value =>
    .object [("name", .string name), ("type", .string "let"), ("value", value.encode)]
  | .assign name value =>
    .object [("name", .string name), ("type", .string "assign"), ("value", value.encode)]
  | .ret value => .object [("type", .string "return"), ("value", Expr.encode? value)]
  | .branch condition thenBody none =>
    .object [("condition", condition.encode), ("elseBody", .null),
      ("thenBody", .array (Stmt.encodeAll thenBody)), ("type", .string "if")]
  | .branch condition thenBody (some elseBody) =>
    .object [("condition", condition.encode), ("elseBody", .array (Stmt.encodeAll elseBody)),
      ("thenBody", .array (Stmt.encodeAll thenBody)), ("type", .string "if")]
  | .forEach item collection body =>
    .object [("body", .array (Stmt.encodeAll body)), ("collection", collection.encode),
      ("item", .string item), ("type", .string "for")]
  | .expression e => .object [("expression", e.encode), ("type", .string "expression")]

def Stmt.encodeAll : List Stmt → List Json
  | [] => []
  | statement :: rest => statement.encode :: Stmt.encodeAll rest

end

def Field.encode (f : Field) : Json :=
  .object [("default", encodeDatum? f.default), ("name", .string f.name),
    ("type", encodeText? f.type)]

def Model.encode (m : Model) : Json :=
  .object [("fields", .array (m.fields.map Field.encode)), ("name", .string m.name)]

def Endpoint.encode (e : Endpoint) : Json :=
  .object [("body", .array (Stmt.encodeAll e.body)), ("method", .string e.method.name),
    ("path", .string e.path), ("returns", encodeDatum? e.returns)]

def Trigger.encode : Trigger → Json
  | .cron pattern => .object [("kind", .string "cron"), ("pattern", .string pattern)]
  | .every cadence => .object [("cadence", .string cadence), ("kind", .string "every")]
  | .lifecycle entity event =>
    .object [("entity", .string entity), ("event", .string event.name), ("kind", .string "entity")]

def Job.encode (j : Job) : Json :=
  .object [("body", .array (Stmt.encodeAll j.body)), ("delay", encodeText? j.delay),
    ("name", .string j.name), ("trigger", j.trigger.encode)]

/-- A program as JSON. Mirrors the writer of `Program`: members stand in the order of
their names. -/
def Program.encode (p : Program) : Json :=
  .object [("endpoints", .array (p.endpoints.map Endpoint.encode)),
    ("jobs", .array (p.jobs.map Job.encode)), ("models", .array (p.models.map Model.encode))]

end ServiceEngine
