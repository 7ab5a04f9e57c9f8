import ServiceEngine.Json.Printer
import ServiceEngine.Value.Heap

/-!
# Values and JSON

Every JSON value is a runtime value, with its numbers as floats. A runtime value is shown as JSON:
whole numbers below `2 ^ 53` as integers, a number that is not finite as null, a record as its fields
with its id, and the built-in names as short texts in angle brackets.

Showing a record shows the values in its fields, which may hold further handles. The walk follows
handles at most as often as there are records, which is enough wherever records do not hold each
other in a circle.
-/

namespace ServiceEngine

namespace Value

mutual

/-- The runtime value of a JSON value. Mirrors `json_to_val`. -/
def ofJson : Json → Value
  | .null => .null
  | .bool b => .bool b
  | .number n => .num n.toFloat
  | .string s => .str s
  | .array items => .list (ofItems items)
  | .object members => .obj (ofMembers members)

def ofItems : List Json → List Value
  | [] => []
  | item :: rest => ofJson item :: ofItems rest

/-- The fields of JSON members. Mirrors `json_to_val_map`. -/
def ofMembers : List (String × Json) → List (String × Value)
  | [] => []
  | (name, value) :: rest => (name, ofJson value) :: ofMembers rest

end

/-- A finite number that is shown with point or exponent; null for the others. -/
def floatJson (x : Float) : Json :=
  if h : x.isFinite = true then .number (.float x h) else .null

/-- A number as JSON. Mirrors `num_to_json`. -/
def numberJson (x : Float) : Json :=
  match Decimal.whole? x with
  | some n =>
    if h : -9007199254740992 < n ∧ n < 9007199254740992 then
      .number (.int n (Json.inRange_of_abs_lt h))
    else floatJson x
  | none => floatJson x

mutual

/-- A value as JSON, where `follow` shows the records. Mirrors `val_to_json`. -/
def toJsonWith (follow : Handle → Json) : Value → Json
  | .null => .null
  | .bool b => .bool b
  | .num x => numberJson x
  | .str s => .string s
  | .list items => .array (itemsJsonWith follow items)
  | .obj fields => .object (fieldsJsonWith follow fields)
  | .record h => follow h
  | .db => .string "<db>"
  | .entity name => .string ("<db." ++ name ++ ">")
  | .func f => .string ("<function " ++ f.name ++ ">")

def itemsJsonWith (follow : Handle → Json) : List Value → List Json
  | [] => []
  | item :: rest => toJsonWith follow item :: itemsJsonWith follow rest

def fieldsJsonWith (follow : Handle → Json) : List (String × Value) → List (String × Json)
  | [] => []
  | (name, value) :: rest => (name, toJsonWith follow value) :: fieldsJsonWith follow rest

end

end Value

/-- A record as JSON: its fields, with its id under `id`. Mirrors `Record::to_json`. -/
def Record.jsonWith (follow : Handle → Json) (r : Record) : Json :=
  .object (Fields.insert (Value.fieldsJsonWith follow r.fields) "id" (.number (.ofWord r.id)))

namespace Heap

/-- The record of a handle as JSON, with at most `depth` records inside each other. -/
def recordJsonTo (heap : Heap) : Nat → Handle → Json
  | 0, _ => .null
  | depth + 1, h => (heap.get h).jsonWith (heap.recordJsonTo depth)

def recordJson (heap : Heap) (h : Handle) : Json := heap.recordJsonTo heap.size h

def json (heap : Heap) (v : Value) : Json := v.toJsonWith heap.recordJson

/-- Fields as JSON. Mirrors `val_map_to_json`. -/
def fieldsJson (heap : Heap) (fields : Fields Value) : Json :=
  .object (Value.fieldsJsonWith heap.recordJson fields)

/-- A value as text: a string stands for itself, any other value for its JSON. Mirrors the
`Display` of `Val`. -/
def display (heap : Heap) (v : Value) : String :=
  match v with
  | .str s => s
  | _ => (heap.json v).compact

end Heap

end ServiceEngine
