import ServiceEngine.Program.Definition
import ServiceEngine.Store.Subscriber
import ServiceEngine.Time.Timing

/-!
# Jobs

A job is planned once: its trigger and its delay are read, and refused if they make no sense. While
the scheduler runs, each job has a task. A timer waits out its delay once and then fires by its
timing; a listener takes the events of the store one by one and fires for those it is meant for,
each after its delay.

The state of a job goes to `running` when a run begins, and back to what it was when the run ends,
unless it has been changed meanwhile.
-/

namespace ServiceEngine

/-! ## States -/

/-- Where a job stands. Mirrors `JobState`. -/
inductive JobState where
  | idle
  | scheduled
  | running
  | stopped
  deriving DecidableEq, Repr

namespace JobState

def name : JobState → String
  | .idle => "idle"
  | .scheduled => "scheduled"
  | .running => "running"
  | .stopped => "stopped"

/-- Begin a run: the state before, which the run remembers, and the state now. -/
def beginRun (state : JobState) : JobState × JobState := (state, .running)

/-- End a run that remembers the state before it. -/
def endRun (remembered state : JobState) : JobState :=
  if state = .running then remembered else state

end JobState

/-! ## Plans -/

/-- What starts a job, understood. Mirrors `Plan`. -/
inductive Plan where
  | timer (timing : Timing)
  | lifecycle (entity : String) (event : EventKind)

def Plan.ofTrigger : Trigger → Except ScheduleError Plan
  | .cron pattern => (Timing.ofCron pattern).map .timer
  | .every cadence => (Timing.ofCadence cadence).map .timer
  | .lifecycle entity event => .ok (.lifecycle entity event)

/-- Whether an event starts the job. -/
def Plan.wants (plan : Plan) (e : Event) : Bool :=
  match plan with
  | .timer _ => false
  | .lifecycle entity event => e.entity = entity && e.kind = event

/-- What the task of a job waits for. Times are in milliseconds of the engine's running time. The
cases are the points at which `run_timer` and `run_listener` wait. -/
inductive Task where
  /-- Nothing was done yet. -/
  | fresh
  /-- A timer waits out its delay. -/
  | delayed (due : Nat)
  /-- A timer waits for its fire time. -/
  | armed (due : Nat)
  /-- A timer that has no further fire time. -/
  | ended
  /-- A listener waits for events. -/
  | listening (sub : Subscriber)
  /-- A listener has an event and waits out its delay. -/
  | pending (sub : Subscriber) (record : Handle) (due : Nat)
  deriving DecidableEq, Repr

/-- The time a task waits for. -/
def Task.due? : Task → Option Nat
  | .delayed due => some due
  | .armed due => some due
  | .pending _ _ due => some due
  | _ => none

/-- A job with its plan, its state and, while the scheduler runs, its task. Mirrors `Job`. -/
structure PlannedJob where
  job : Job
  plan : Plan
  delay : Option Span
  state : JobState
  task : Option Task

namespace PlannedJob

/-- Plan a job. The trigger is read before the delay. Mirrors `Job::compile`. -/
def ofJob (job : Job) : Except ScheduleError PlannedJob := do
  let plan ← Plan.ofTrigger job.trigger
  let delay ← match job.delay with
    | some text => some <$> Span.ofDelay text
    | none => pure none
  return ⟨job, plan, delay, .idle, none⟩

/-- The job with its task started. -/
def start (p : PlannedJob) (store : Store) : PlannedJob :=
  let task := match p.plan with
    | .timer _ => Task.fresh
    | .lifecycle _ _ => Task.listening store.subscribe
  { p with state := .scheduled, task := some task }

/-- The job with its task cancelled. -/
def stop (p : PlannedJob) : PlannedJob := { p with state := .stopped, task := none }

/-- The names that a run sees which no event started. Mirrors the bindings that
`Scheduler::run_job` makes. -/
def manualBindings (p : PlannedJob) : Fields Value :=
  match p.plan with
  | .timer _ => []
  | .lifecycle _ _ => [("record", .null)]

end PlannedJob

end ServiceEngine
