import ServiceEngine.Exec.Run
import ServiceEngine.Service.Job
import ServiceEngine.Service.Route

/-!
# The engine

An engine is a program at work: its endpoints and planned jobs, the store, the clock, and the notices
of what happened. Every operation is a function to an answer and the engine after it. A body that
fails keeps what it did before.
-/

namespace ServiceEngine

/-! ## Errors and notices -/

/-- Why a request or a run has no result. Mirrors `EngineError`. -/
inductive EngineError where
  | endpointNotFound (method path : String)
  | unknownJob (name : String)
  | failed (failure : Failure)

def EngineError.message : EngineError → String
  | .endpointNotFound method path => "no endpoint matches " ++ method ++ " " ++ path
  | .unknownJob name => "unknown job '" ++ name ++ "'"
  | .failed failure => failure.message

/-- Why seed data is refused. -/
inductive SeedError where
  | notObject
  | notList (entity : String)
  | notRecord (entity : String)
  deriving DecidableEq, Repr

def SeedError.message : SeedError → String
  | .notObject => "Seed data must be an object of entity name to record list"
  | .notList entity => "Seed data for '" ++ entity ++ "' must be a list of records"
  | .notRecord entity => "Seed record for '" ++ entity ++ "' must be an object"

/-- Something worth telling the host. -/
inductive Notice where
  /-- A line that a body logged. -/
  | line (text : String)
  | schedulerStarted (jobs : Nat)
  | schedulerNotIdle
  | schedulerStopped
  | schedulerDisabled
  | tickFailed (job : String) (failure : Failure)
  | noFutureFire (job : String)
  | eventsDropped (job : String) (count : Nat)

def Notice.text : Notice → String
  | .line text => "INFO keel::log " ++ text
  | .schedulerStarted jobs => "INFO engine scheduler started jobs=" ++ toString jobs
  | .schedulerNotIdle => "WARN engine scheduler already started or stopped"
  | .schedulerStopped => "INFO engine scheduler stopped"
  | .schedulerDisabled => "INFO engine scheduler disabled by configuration"
  | .tickFailed job failure =>
    "ERROR engine job tick failed job=" ++ job ++ " error=" ++ failure.message
  | .noFutureFire job => "WARN engine schedule has no future fire time job=" ++ job
  | .eventsDropped job count =>
    "WARN engine lifecycle events dropped job=" ++ job ++ " skipped=" ++ toString count

/-! ## State -/

/-- Where the time comes from, in milliseconds since 1970: from a start that moves with the
engine's running time, or from a clock that only the host moves. Mirrors `SystemClock` and
`FixedClock`. -/
inductive Clock where
  | live (start : Int)
  | fixed (now : Int)
  deriving DecidableEq, Repr

/-- Whether the scheduler is yet to be started, runs, or has been stopped for good.
Mirrors `Phase`. -/
inductive Phase where
  | idle
  | started
  | stopped
  deriving DecidableEq, Repr

/-- A program at work. Mirrors `Application`, with the state of its `Scheduler`. -/
structure Engine where
  /-- Whether the host wants the scheduler at all. -/
  schedulerEnabled : Bool
  endpoints : List Endpoint
  jobs : List PlannedJob
  phase : Phase
  store : Store
  clock : Clock
  /-- The running time in milliseconds. -/
  elapsed : Nat
  /-- The notices so far, each with the running time at which it was given. -/
  notices : Array (Nat × Notice)

namespace Engine

/-- An engine for a program; the models' defaults are set and the jobs planned. Mirrors
`Application::new`. -/
def ofProgram (program : Program) (schedulerEnabled : Bool) (clock : Clock) :
    Except ScheduleError Engine := do
  let jobs ← program.jobs.mapM PlannedJob.ofJob
  let store := program.models.foldl (fun s m => s.define m.name m.defaults) Store.empty
  return ⟨schedulerEnabled, program.endpoints, jobs, .idle, store, clock, 0, #[]⟩

def now (e : Engine) : Int :=
  match e.clock with
  | .live start => start + e.elapsed
  | .fixed now => now

/-- Set a clock that only the host moves. Mirrors `FixedClock::set`. -/
def setClock (e : Engine) (now : Int) : Engine :=
  match e.clock with
  | .live _ => e
  | .fixed _ => { e with clock := .fixed now }

/-- Move a clock that only the host moves. Mirrors `FixedClock::advance`. -/
def advanceClock (e : Engine) (millis : Int) : Engine :=
  match e.clock with
  | .live _ => e
  | .fixed now => { e with clock := .fixed (now + millis) }

def notify (e : Engine) (notice : Notice) : Engine :=
  { e with notices := e.notices.push (e.elapsed, notice) }

/-! ## Bodies -/

/-- Run a body in a fresh root frame that binds `vars`. -/
def runBody (e : Engine) (vars : Fields Value) (body : List Stmt) :
    Except Failure Value × Engine :=
  let (result, m) := (Machine.start vars ⟨e.store, #[], e.now⟩).runBody body
  let e := { e with store := m.world.store }
  (result, m.world.log.foldl (fun e line => e.notify (.line line)) e)

/-- The JSON of a result, or why there is none. -/
def answer : Except Failure Value × Engine → Except EngineError Json × Engine
  | (.ok v, e) => (.ok (e.store.heap.json v), e)
  | (.error failure, e) => (.error (.failed failure), e)

/-- Answer a request. Mirrors `Router::dispatch`. -/
def dispatch (e : Engine) (method target : String) (body : Option Json) :
    Except EngineError Json × Engine :=
  match Route.resolve? e.endpoints method target body with
  | some (endpoint, vars) => answer (e.runBody vars endpoint.body)
  | none => (.error (.endpointNotFound method target), e)

def routes (e : Engine) : List (Method × String) := e.endpoints.map (fun p => (p.method, p.path))

/-! ## Jobs -/

def modifyJob (e : Engine) (i : Nat) (f : PlannedJob → PlannedJob) : Engine :=
  { e with jobs := e.jobs.modify i f }

/-- Run the job at a place with `vars`; its state is `running` meanwhile. Mirrors `Job::run`. -/
def runPlanned (e : Engine) (i : Nat) (p : PlannedJob) (vars : Fields Value) :
    Except Failure Value × Engine :=
  let (remembered, state) := p.state.beginRun
  let e := e.modifyJob i (fun p => { p with state })
  let (result, e) := e.runBody vars p.job.body
  (result, e.modifyJob i (fun p => { p with state := JobState.endRun remembered p.state }))

/-- The place of the first job of a name. Mirrors `Scheduler::find`. -/
def jobIndex? (e : Engine) (name : String) : Option Nat :=
  e.jobs.findIdx? (fun p => p.job.name = name)

/-- Run a job now. Mirrors `Scheduler::run_job`. -/
def runJob (e : Engine) (name : String) : Except EngineError Json × Engine :=
  match (e.jobIndex? name).bind (fun i => e.jobs[i]?.map (fun p => (i, p))) with
  | some (i, p) => answer (e.runPlanned i p p.manualBindings)
  | none => (.error (.unknownJob name), e)

/-- The state of the first job of a name. Mirrors `Scheduler::state`. -/
def jobState? (e : Engine) (name : String) : Option JobState :=
  (e.jobs.find? (fun p => p.job.name = name)).map (·.state)

/-! ## Seeding -/

/-- Create the records of an entity; the number created, counted on from `count`. -/
def seedRows (entity : String) : List Json → Nat → Store → Except SeedError Nat × Store
  | [], count, s => (.ok count, s)
  | .object members :: rows, count, s =>
    seedRows entity rows (count + 1) (s.create entity (Value.ofMembers members)).2
  | _ :: _, _, s => (.error (.notRecord entity), s)

/-- Create the records of entities in the order given. -/
def seedTables : List (String × Json) → Nat → Store → Except SeedError Nat × Store
  | [], count, s => (.ok count, s)
  | (entity, .array rows) :: tables, count, s =>
    match seedRows entity rows count s with
    | (.ok count, s) => seedTables tables count s
    | (.error why, s) => (.error why, s)
  | (entity, _) :: _, _, s => (.error (.notList entity), s)

/-- Create records from an object of lists of objects; the number created. What stands before the
first mistake is kept. Mirrors `Application::seed`. -/
def seed (e : Engine) (data : Json) : Except SeedError Nat × Engine :=
  match data with
  | .object tables =>
    let (result, store) := seedTables tables 0 e.store
    (result, { e with store })
  | _ => (.error .notObject, e)

end Engine

end ServiceEngine
