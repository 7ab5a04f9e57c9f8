import ServiceEngine.Decimal.Layout
import ServiceEngine.Decimal.Reader
import ServiceEngine.Json.Document
import ServiceEngine.Settings.Layer

/-!
# Settings

What a host can set: the program file, whether the scheduler runs, and what is logged. Settings are
decoded from a table of layers laid over each other; scalars are converted where a meaning is plain,
so `1`, `"on"` and `true` all switch a thing on.
-/

namespace ServiceEngine

/-- The settings of a service. Mirrors `Config`, with `SchedulerConfig` and `LoggingConfig`. -/
structure Settings where
  /-- The program's file. -/
  program : Option String
  schedulerEnabled : Bool
  /-- What is logged. -/
  logFilter : String
  deriving DecidableEq, Repr

/-- Why there are no settings. -/
inductive SettingsError where
  /-- A file is missing, of an unknown format or cannot be read. -/
  | unreadable
  /-- A setting does not have the form it needs. -/
  | unfit
  deriving DecidableEq, Repr

def SettingsError.message : SettingsError → String
  | .unreadable => "Failed to load configuration"
  | .unfit => "Invalid configuration"

namespace Setting

/-! ## Conversions -/

/-- A scalar as a switch: numbers are off at zero, and a few words are known. -/
def switch? : Setting → Option Bool
  | .bool b => some b
  | .int n => some (n ≠ 0)
  | .float x => some (x != 0.0)
  | .text s =>
    match String.ofList (Text.lower s.toList) with
    | "1" | "true" | "on" | "yes" => some true
    | "0" | "false" | "off" | "no" => some false
    | _ => none
  | _ => none

def text? : Setting → Option String
  | .text s => some s
  | .bool b => some (if b then "true" else "false")
  | .int n => some (toString n)
  | .float x => some (Decimal.plain.write x)
  | _ => none

/-- A part of the settings that has one entry: a table, or a list of the entry alone. An absent part
and an absent entry stand for the usual value. -/
def part? {α : Type} (name : String) (usual : α) (read : Setting → Option α) :
    Option Setting → Option α
  | none => some usual
  | some (.table entries) =>
    match Fields.get? entries name with
    | some setting => read setting
    | none => some usual
  | some (.list []) => some usual
  | some (.list (first :: _)) => read first
  | some _ => none

end Setting

namespace Settings

/-- The lowest layer. Mirrors the defaults that `ConfigBuilder::build` sets. -/
def defaults : List (String × Setting) :=
  [("scheduler.enabled", .bool true), ("logging.filter", .text "info")]

/-- Decode a table. -/
def ofTable (table : Fields Setting) : Except SettingsError Settings :=
  let program : Option (Option String) := match table.get? "program" with
    | none => some none
    | some .null => some none
    | some setting => setting.text?.map some
  match program, Setting.part? "enabled" true Setting.switch? (table.get? "scheduler"),
      Setting.part? "filter" "info" Setting.text? (table.get? "logging") with
  | some program, some enabled, some filter => .ok ⟨program, enabled, filter⟩
  | _, _, _ => .error .unfit

end Settings

/-! ## Layers from variables and JSON -/

namespace Setting

/-- The setting that a variable's text spells: a boolean in any case, an integer of 64 bits, a float,
or the text itself. -/
def ofVariable (text : String) : Setting :=
  let cs := text.toList
  let (negative, digits) := match cs with
    | '-' :: rest => (true, rest)
    | '+' :: rest => (false, rest)
    | _ => (false, cs)
  let integer := (Decimal.natural? digits).map (fun n => if negative then -(n : Int) else n)
  let word := String.ofList (Text.lower cs)
  if word = "true" then .bool true
  else if word = "false" then .bool false
  else match integer.filter isInteger with
    | some n => .int n
    | none =>
      match Decimal.float? cs with
      | some x => .float x
      | none => .text text

/-- A key with two underscores in a row written as a point. -/
def pointed : List Char → List Char
  | '_' :: '_' :: rest => '.' :: pointed rest
  | c :: rest => c :: pointed rest
  | [] => []

/-- What is left of `cs` behind `front`. -/
def behind? : List Char → List Char → Option (List Char)
  | [], cs => some cs
  | f :: front, c :: cs => if f = c then behind? front cs else none
  | _ :: _, [] => none

/-- The layer that variables make. A variable counts if its name starts with `KEEL_`, in any case.
Mirrors `ENV_PREFIX`. -/
def ofVariables (vars : Fields String) : List (String × Setting) :=
  vars.filterMap (fun (name, spelled) =>
    (behind? "keel_".toList (Text.lower name.toList)).map (fun key =>
      (String.ofList (pointed key), ofVariable spelled)))

mutual

/-- The setting of a JSON value; an integer beyond 63 bits is kept as a float. -/
def ofJson : Json → Setting
  | .null => .null
  | .bool b => .bool b
  | .number (.int n _) => if isInteger n then .int n else .float (Decimal.floatOfInt n)
  | .number (.float x _) => .float x
  | .string s => .text s
  | .array items => .list (ofItems items)
  | .object members => .table (ofMembers members)

def ofItems : List Json → List Setting
  | [] => []
  | item :: rest => ofJson item :: ofItems rest

def ofMembers : List (String × Json) → List (String × Setting)
  | [] => []
  | (name, value) :: rest => (name, ofJson value) :: ofMembers rest

end

end Setting

end ServiceEngine
