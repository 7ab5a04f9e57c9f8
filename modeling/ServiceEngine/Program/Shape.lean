import ServiceEngine.Json.Document

/-!
# The two spellings of a definition

A definition with named fields is written as an object, or as an array of its fields in the order of
their declaration, from which optional fields at the end may be left out. In an object unknown names
are skipped, and a known name may stand only once.

A node of a tree also says which of several kinds it is. In an object the kind stands under a name of
its own, in an array it comes first. Inside another node the kind may also be given by its number.
-/

namespace ServiceEngine

open Json (Document)

namespace Json.Document

mutual

/-- The greatest number of containers nested in each other. -/
def depth : Document → Nat
  | .array items => depthItems items + 1
  | .object members => depthMembers members + 1
  | .null => 0
  | .bool _ => 0
  | .number _ => 0
  | .string _ => 0

def depthItems : List Document → Nat
  | [] => 0
  | item :: rest => max item.depth (depthItems rest)

def depthMembers : List (Option String × Document) → Nat
  | [] => 0
  | (_, value) :: rest => max value.depth (depthMembers rest)

end

/-- The document stands for a value and nests at most `room` containers. -/
def isValue (room : Nat) (d : Document) : Bool := d.fits room && d.toJson?.isSome

/-- The text that a document is. -/
def text? : Document → Option String
  | .string s => s
  | _ => none

/-- The items of an array, each read by `item`. -/
def list? {α : Type} (item : Document → Option α) : Document → Option (List α)
  | .array items => items.mapM item
  | _ => none

/-- Null for nothing; anything else is read by `inner`. -/
def option? {α : Type} (inner : Document → Option α) : Document → Option (Option α)
  | .null => some none
  | d => (inner d).map some

/-- A word of a fixed set: the text itself, or an object with the word as its only name and null or an
empty object under it. -/
def word? : Document → Option String
  | .string s => s
  | .object [(name, .null)] => name
  | .object [(name, .object [])] => name
  | _ => none

end Json.Document

/-- The fields of a definition as they are written. -/
inductive Shape where
  | named (members : List (Option String × Document))
  | positional (items : List Document)

namespace Shape

/-- The fields of a plain definition. -/
def ofDocument? : Document → Option Shape
  | .object members => some (.named members)
  | .array items => some (.positional items)
  | _ => none

/-- What is written under `name`: nothing, or one document. -/
def once? (members : List (Option String × Document)) (name : String) : Option (Option Document) :=
  match members.filter (fun entry => entry.1 = some name) with
  | [] => some none
  | [entry] => some (some entry.2)
  | _ => none

/-- The documents of the fields `names`, in this order. -/
def fields? (names : List String) : Shape → Option (List (Option Document))
  | .named members =>
    if members.all (fun entry => entry.1.isSome) then names.mapM (once? members) else none
  | .positional items =>
    if items.length ≤ names.length then
      some (items.map some ++ List.replicate (names.length - items.length) none)
    else none

end Shape

/-- The kind that a tag names: a word, or inside another node also the number of the kind. -/
def tag? (kinds : List String) (inner : Bool) : Document → Option String
  | .string (some s) => if s ∈ kinds then some s else none
  | .number (some (.int n _)) => if inner ∧ 0 ≤ n then kinds[n.toNat]? else none
  | _ => none

/-- The kind of a node, written under `key` or first, and its fields. -/
def tagged? (key : String) (kinds : List String) (inner : Bool) : Document → Option (String × Shape)
  | .object members => do
    let tag ← ← Shape.once? members key
    let kind ← tag? kinds inner tag
    return (kind, .named (members.filter (fun entry => entry.1 ≠ some key)))
  | .array (tag :: items) => do
    let kind ← tag? kinds inner tag
    return (kind, .positional items)
  | _ => none

end ServiceEngine
