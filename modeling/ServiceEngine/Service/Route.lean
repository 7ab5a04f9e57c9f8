import ServiceEngine.Program.Definition
import ServiceEngine.Text.Split

/-!
# Routes

A request goes to the first endpoint with its method whose path pattern matches the path before the
first question mark. Paths are compared part by part, empty parts left out; a pattern's part that
starts with a colon matches every part and captures it.

The body of the endpoint then sees, by rising precedence, the fields of the request's body, the whole
body as `body`, the query as `query`, and the captured parts by their names.
-/

namespace ServiceEngine

/-- A part of a path pattern. Mirrors `Segment`. -/
inductive Segment where
  | literal (text : String)
  | param (name : String)
  deriving DecidableEq, Repr

namespace Segment

def ofPart (part : String) : Segment :=
  match part.toList with
  | ':' :: name => .param (String.ofList name)
  | _ => .literal part

/-- The captured names with their parts, if the parts of a path match the pattern. Mirrors the
loop of `Route::matches`. -/
def capture : List Segment → List String → Option (List (String × String))
  | [], [] => some []
  | .literal text :: segments, part :: parts => if text = part then capture segments parts else none
  | .param name :: segments, part :: parts => (capture segments parts).map ((name, part) :: ·)
  | _, _ => none

end Segment

namespace Route

/-- The non-empty parts of a path. Mirrors `split_path`. -/
def parts (path : String) : List String :=
  (Text.pieces (· = '/') path.toList).map String.ofList

def segments (pattern : String) : List Segment := (parts pattern).map Segment.ofPart

/-- What a pattern captures from a path that it matches. Mirrors `Route::matches`. -/
def captures? (pattern path : String) : Option (List (String × String)) :=
  Segment.capture (segments pattern) (parts path)

/-- The name and the value of a part of a query; without an equals sign the value is empty. -/
def queryPair (pair : List Char) : String × Value :=
  match Text.cut? '=' pair with
  | some (key, value) => (String.ofList key, .str (String.ofList value))
  | none => (String.ofList pair, .str "")

/-- The names and values of a query; the last value of a name counts. Mirrors `parse_query`. -/
def query (text : List Char) : Fields Value :=
  Fields.ofEntries ((Text.pieces (· = '&') text).map queryPair)

/-- The path and the query of a request's target. -/
def splitTarget (target : String) : String × List Char :=
  match Text.cut? '?' target.toList with
  | some (path, query) => (String.ofList path, query)
  | none => (target, [])

/-- The names that an endpoint's body sees. -/
def bindings (body : Option Json) (query : List Char) (captured : List (String × String)) :
    Fields Value :=
  let fields := match body with
    | some (.object members) => Value.ofMembers members
    | _ => []
  let whole := match body with
    | some j => Value.ofJson j
    | none => .null
  let common := (Fields.insert fields "body" whole).insert "query" (.obj (Route.query query))
  -- A captured part wins over everything else of its name.
  common.merge (captured.map (fun (name, part) => (name, .str part)))

/-- The first endpoint that a request fits, and the names its body sees. Mirrors the search that
`Router::dispatch` makes before it runs a body. -/
def resolve? (endpoints : List Endpoint) (method target : String) (body : Option Json) :
    Option (Endpoint × Fields Value) := do
  let method ← Method.ofName? method
  let (path, query) := splitTarget target
  endpoints.findSome? (fun endpoint =>
    if endpoint.method = method then
      (captures? endpoint.path path).map (fun captured =>
        (endpoint, bindings body query captured))
    else none)

end Route

end ServiceEngine
