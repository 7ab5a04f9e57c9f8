import ServiceEngine.CommandLine.Command
import ServiceEngine.Json.Printer
import ServiceEngine.Service.Launch

/-!
# Running commands

A command launches a service and prints what it was asked for. The host gives files and variables,
takes what is printed, tells the time and knows when it is interrupted; everything else is decided
here.
-/

namespace ServiceEngine

/-- What a command line needs from its surroundings. -/
structure Host (m : Type → Type) extends Environment m where
  print : String → m Unit
  /-- The time in milliseconds since 1970. -/
  now : m Int
  /-- Let the engine run until the host is interrupted. -/
  untilInterrupted : Engine → m Engine

/-- Why a command fails. -/
inductive CommandError where
  | launch (why : LaunchError)
  /-- The text of the seed data is not JSON. -/
  | seedText
  | seed (why : SeedError)
  /-- The text of the request's body is not JSON. -/
  | bodyText
  | engine (why : EngineError)

def CommandError.message : CommandError → String
  | .launch why => why.message
  | .seedText => "Seed data is not valid JSON"
  | .seed why => why.message
  | .bodyText => "Request body is not valid JSON"
  | .engine why => why.message

/-- How a command line ends: it is not understood, or it is run, with the notices given meanwhile and
the error that ended it. -/
inductive Outcome where
  | usage
  | ended (notices : List Notice) (error : Option CommandError)

namespace Command

/-! ## What is printed -/

/-- Lines, or a word for none. -/
def listing (none : String) : List String → String
  | [] => none ++ "\n"
  | lines => String.join (lines.map (fun line => "  " ++ line ++ "\n"))

def routesText (e : Engine) : String :=
  listing "No endpoints defined" (e.routes.map (fun (method, path) => method.name ++ " " ++ path))

def jobsText (e : Engine) : String :=
  listing "No jobs defined" (e.jobs.map (fun p => p.job.name ++ " | " ++ p.job.trigger.describe))

def resultText (result : Json) : String := result.pretty ++ "\n"

def dumpText (e : Engine) : String := "\nDatabase:\n" ++ e.store.dump.pretty ++ "\n"

/-- What is said once the scheduler was asked to start. -/
def startText (started : Bool) (e : Engine) : String :=
  if started then "✓ Scheduler running " ++ toString e.jobs.length ++ " job(s), Ctrl-C to stop\n"
  else "Scheduler disabled by configuration, Ctrl-C to exit\n"

/-- What is said once the scheduler has stopped. -/
def stopText : String := "✓ Stopped\n"

/-! ## What is done -/

/-- Create the records of seed data, if there is any. Mirrors `seed_from_arg`. -/
def seed (e : Engine) : Option String → Except CommandError Unit × Engine
  | none => (.ok (), e)
  | some text =>
    match Json.ofText? text with
    | none => (.error .seedText, e)
    | some data =>
      match e.seed data with
      | (.ok _, e) => (.ok (), e)
      | (.error why, e) => (.error (.seed why), e)

/-- The body of a request, if there is one. -/
def body? : Option String → Except CommandError (Option Json)
  | none => .ok none
  | some text =>
    match Json.ofText? text with
    | some body => .ok (some body)
    | none => .error .bodyText

/-- Answer a request; gives what is to be printed. -/
def answerCall (e : Engine) (method path : String) (body : Option String) (dump : Bool) :
    Except CommandError String × Engine :=
  -- The body is read before the endpoint is looked for.
  match body? body with
  | .error why => (.error why, e)
  | .ok body =>
    match e.dispatch method path body with
    | (.ok result, e) => (.ok (resultText result ++ if dump then dumpText e else ""), e)
    | (.error why, e) => (.error (.engine why), e)

/-- Run a job; gives what is to be printed. -/
def answerJob (e : Engine) (name : String) : Except CommandError String × Engine :=
  match e.runJob name with
  | (.ok result, e) => (.ok (resultText result), e)
  | (.error why, e) => (.error (.engine why), e)

/-- Create the records of seed data, then go on. -/
def seeded (e : Engine) (data : Option String)
    (next : Engine → Except CommandError String × Engine) : Except CommandError String × Engine :=
  match seed e data with
  | (.ok _, e) => next e
  | (.error why, e) => (.error why, e)

section

variable {m : Type → Type} [Monad m]

/-- Print what there is to print; gives the end of the command. -/
def finish (host : Host m) : Except CommandError String × Engine → m Outcome
  | (.ok text, e) => do
    host.print text
    return .ended (e.notices.toList.map Prod.snd) none
  | (.error why, e) => return .ended (e.notices.toList.map Prod.snd) (some why)

/-- Carry out a command. Mirrors `run_cli_with_args`. -/
def perform (host : Host m) (e : Engine) : Command → m Outcome
  | .routes => finish host (.ok (routesText e), e)
  | .jobs => finish host (.ok (jobsText e), e)
  | .call method path body data dump =>
    finish host (seeded e data (fun e => answerCall e method path body dump))
  | .runJob name data => finish host (seeded e data (fun e => answerJob e name))
  | .run => do
    let (started, e) := e.start
    host.print (startText started e)
    let e ← host.untilInterrupted e
    finish host (.ok stopText, e.stop)

end

end Command

/-- Run a command line. Mirrors `run_cli_from_args`. -/
def runCommandLine {m : Type → Type} [Monad m] (host : Host m) (words : List String) :
    m Outcome := do
  match Invocation.read? words with
  | none => return .usage
  | some invocation =>
    let request : Settings.Request :=
      { configPath := invocation.config, program := invocation.program }
    match ← Engine.launch host.toEnvironment request none (.live (← host.now)) with
    | .error why => return .ended [] (some (.launch why))
    | .ok (_, e) => invocation.command.perform host e

end ServiceEngine
