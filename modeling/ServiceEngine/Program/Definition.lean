import ServiceEngine.Program.Expr
import ServiceEngine.Store.Basic

/-!
# Service definitions

A program describes a service: its models with the default fields of their records, its endpoints
with method, path pattern and body, and its jobs with trigger, delay and body.
-/

namespace ServiceEngine

/-- The method of a request. Mirrors `Method`. -/
inductive Method where
  | get
  | post
  | put
  | patch
  | delete
  deriving DecidableEq, Repr

namespace Method

def name : Method → String
  | .get => "GET"
  | .post => "POST"
  | .put => "PUT"
  | .patch => "PATCH"
  | .delete => "DELETE"

def all : List Method := [.get, .post, .put, .patch, .delete]

/-- The method of a name, in any letter case. Mirrors `Method::from_str`. -/
def ofName? (text : String) : Option Method :=
  all.find? (fun m => m.name.toList = text.toList.map Char.toUpper)

/-- The complaint about a name that is no method. -/
def unsupported (text : String) : String := "unsupported method '" ++ text ++ "'"

theorem ofName?_name (m : Method) : ofName? m.name = some m := by
  cases m <;> decide

end Method

/-- A declared field of a model. Mirrors `FieldDef`. -/
structure Field where
  name : String
  type : Option String
  default : Option Json.Datum
  deriving BEq

/-- A declared entity. Mirrors `ModelDef`. -/
structure Model where
  name : String
  fields : List Field
  deriving BEq

/-- The default fields of a model's records: of two declarations of a name the later counts.
Mirrors what `Database::define` collects. -/
def Model.defaults (m : Model) : FieldMap Value :=
  FieldMap.ofEntries (m.fields.filterMap (fun field =>
    field.default.map (fun value => (field.name, Value.ofJson value.json))))

/-- What answers a request. A segment of the path that starts with a colon stands for any text.
Mirrors `EndpointDef`. -/
structure Endpoint where
  method : Method
  path : String
  body : List Stmt
  returns : Option Json.Datum
  deriving BEq

/-- What starts a job. Mirrors `Trigger`. -/
inductive Trigger where
  | cron (pattern : String)
  | every (cadence : String)
  | lifecycle (entity : String) (event : EventKind)
  deriving DecidableEq, Repr

/-- A trigger as it is listed. -/
def Trigger.describe : Trigger → String
  | .cron pattern => "cron '" ++ pattern ++ "'"
  | .every cadence => cadence
  | .lifecycle entity event => "on " ++ entity ++ " " ++ event.name

/-- A body that runs by itself. The delay is waited once before the first run by the clock, or
after each event. Mirrors `JobDef`. -/
structure Job where
  name : String
  trigger : Trigger
  delay : Option String
  body : List Stmt
  deriving BEq

structure Program where
  models : List Model
  endpoints : List Endpoint
  jobs : List Job
  deriving BEq

end ServiceEngine
