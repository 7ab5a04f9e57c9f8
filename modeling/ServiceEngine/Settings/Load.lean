import ServiceEngine.Settings.Basic
import ServiceEngine.Settings.DotEnv
import ServiceEngine.Settings.Toml

/-!
# Loading settings

Settings are laid over each other in four layers: the defaults, a settings file, the variables of the
environment, and what the host asks for. The file is the one the host or `KEEL_CONFIG_PATH` names,
which has to be there, or else `keel.toml` or `keel.json`, which may be missing. A file `.env` adds
variables that are not set.

Loading asks its environment for files and is otherwise a function of what it finds.
-/

namespace ServiceEngine

/-- Where settings and programs are read from. -/
structure Environment (m : Type → Type) where
  /-- The variables, by name. -/
  vars : Fields String
  /-- The text of a file, if it is there. -/
  readFile : String → m (Option String)

/-- A format of settings files. -/
inductive Settings.Format where
  | toml
  | json
  deriving DecidableEq, Repr

namespace Settings

/-- The formats, in the order in which they are looked for. -/
def Format.all : List Format := [.toml, .json]

def Format.ending : Format → String
  | .toml => "toml"
  | .json => "json"

def Format.read? : Format → String → Option (Fields Setting)
  | .toml, text => Toml.read? text
  | .json, text =>
    match Json.ofText? text with
    | some (.object members) => some (Setting.ofMembers members)
    | _ => none

/-- What follows the last point of a file's name, unless the point is the name's first character. -/
def ending? (path : String) : Option String :=
  let name := path.toList.reverse.takeWhile (· ≠ '/')
  match Text.cut? '.' name with
  | some (_, []) => none
  | some (ending, _) => some (String.ofList ending.reverse)
  | none => none

/-- The format that a file's name tells. -/
def Format.ofPath? (path : String) : Option Format :=
  (ending? path).bind (fun ending => Format.all.find? (fun f => f.ending = ending))

/-- What a search for a settings file gives. -/
inductive Found where
  | nothing
  | unknownFormat
  | file (format : Format) (text : String)

/-- The layer of a file, which has to be there or may be missing. -/
def Found.layer? (required : Bool) : Found → Option (Fields Setting)
  | .file format text => format.read? text
  | .nothing => if required then none else some []
  | .unknownFormat => if required then none else some []

section

variable {m : Type → Type} [Monad m]

/-- Look for a file named by a path and the ending of one of the formats. -/
def findWithEnding (env : Environment m) (path : String) : List Format → m Found
  | [] => return .nothing
  | format :: rest => do
    match ← env.readFile (path ++ "." ++ format.ending) with
    | some text => return .file format text
    | none => findWithEnding env path rest

/-- Look for the file of a path: the path itself, or the path with an ending. -/
def find (env : Environment m) (path : String) : m Found := do
  match ← env.readFile path with
  | some text =>
    match Format.ofPath? path with
    | some format => return .file format text
    | none => return .unknownFormat
  | none => findWithEnding env path Format.all

/-- What a host asks for. Mirrors `ConfigBuilder`. -/
structure Request where
  configPath : Option String := none
  program : Option String := none
  schedulerEnabled : Option Bool := none
  logFilter : Option String := none

def Request.layer (r : Request) : List (String × Setting) :=
  (r.program.map (fun s => ("program", Setting.text s))).toList ++
    (r.schedulerEnabled.map (fun b => ("scheduler.enabled", Setting.bool b))).toList ++
    (r.logFilter.map (fun s => ("logging.filter", Setting.text s))).toList

/-- The settings of layers, the lowest first. -/
def ofLayers (layers : List (List (String × Setting))) : Except SettingsError Settings :=
  ofTable (layers.foldl Setting.writeLayer [])

/-- The variables, with those of the file `.env` added. -/
def allVars (env : Environment m) : m (Fields String) := do
  match ← env.readFile ".env" with
  | some text => return DotEnv.addTo env.vars text
  | none => return env.vars

/-- Load the settings. Mirrors `ConfigBuilder::build`. -/
def load (env : Environment m) (request : Request) : m (Except SettingsError Settings) := do
  let vars ← allVars env
  -- A file that is named has to be there; the usual one may be missing.
  let layer ← match request.configPath <|> vars.get? "KEEL_CONFIG_PATH" with
    | some path => (Found.layer? true ·) <$> find env path
    | none => (Found.layer? false ·) <$> find env "keel"
  match layer with
  | some layer => return ofLayers [defaults, layer, Setting.ofVariables vars, request.layer]
  | none => return .error .unreadable

end

end Settings

end ServiceEngine
