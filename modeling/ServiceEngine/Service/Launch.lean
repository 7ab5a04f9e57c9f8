import ServiceEngine.Program.Decode
import ServiceEngine.Service.Scheduler
import ServiceEngine.Settings.Load

/-!
# Launching a service

From settings and a program to an engine. The program is given by the host or read from the file that
the settings name.
-/

namespace ServiceEngine

def Program.unreadableText : String := "Failed to parse program JSON"

/-- Why a service is not launched. -/
inductive LaunchError where
  | settings (why : SettingsError)
  | noProgram
  /-- The program's file cannot be read. -/
  | noFile (path : String)
  /-- The program's file does not hold a program. -/
  | notProgram (path : String)
  | schedule (why : ScheduleError)

def LaunchError.message : LaunchError → String
  | .settings why => why.message
  | .noProgram => "No program configured: pass --program or set KEEL_PROGRAM"
  | .noFile path => "Failed to read program file " ++ path
  | .notProgram path => "Invalid program in " ++ path ++ ": " ++ Program.unreadableText
  | .schedule why => "Invalid job schedule: " ++ why.message

namespace Engine

/-- An engine for a program under settings. -/
def ofSettings (settings : Settings) (program : Program) (clock : Clock) :
    Except LaunchError Engine :=
  match ofProgram program settings.schedulerEnabled clock with
  | .ok e => .ok e
  | .error why => .error (.schedule why)

section

variable {m : Type → Type} [Monad m]

/-- The program of the settings. Mirrors `Program::load`. -/
def readProgram (env : Environment m) (settings : Settings) : m (Except LaunchError Program) := do
  match settings.program with
  | none => return .error .noProgram
  | some path =>
    match ← env.readFile path with
    | none => return .error (.noFile path)
    | some text =>
      match ofText? Program.ofDocument? text with
      | some program => return .ok program
      | none => return .error (.notProgram path)

/-- Load settings and, unless the host gives one, the program; make an engine of them. Mirrors
`initialize`. -/
def launch (env : Environment m) (request : Settings.Request) (program : Option Program)
    (clock : Clock) : m (Except LaunchError (Settings × Engine)) := do
  match ← Settings.load env request with
  | .error why => return .error (.settings why)
  | .ok settings =>
    let program ← match program with
      | some program => pure (.ok program)
      | none => readProgram env settings
    return do
      let e ← ofSettings settings (← program) clock
      return (settings, e)

end

end Engine

end ServiceEngine
