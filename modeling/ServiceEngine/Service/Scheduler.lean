import ServiceEngine.Service.Engine

/-!
# The scheduler

Starting the scheduler gives every job a task; stopping it cancels all tasks for good. Time passes
only when the host lets it: `settle` runs every task that can run without time passing, and
`advance` moves from one due time to the next, settling at each.

Waits are measured in whole milliseconds, rounded up.
-/

namespace ServiceEngine

/-- The least number of whole milliseconds that covers `nanos` nanoseconds. -/
def millisFor (nanos : Int) : Nat := ((nanos + 999999) / 1000000).toNat

namespace Engine

/-! ## Starting and stopping -/

/-- Start the scheduler, if it was neither started nor stopped before. Mirrors
`Scheduler::start`. -/
def startScheduler (e : Engine) : Bool × Engine :=
  match e.phase with
  | .idle =>
    let jobs := e.jobs.map (fun p => p.start e.store)
    (true, { e with jobs, phase := .started }.notify (.schedulerStarted jobs.length))
  | _ => (false, e.notify .schedulerNotIdle)

/-- Start the scheduler, unless the host does not want it. Mirrors `Application::start`. -/
def start (e : Engine) : Bool × Engine :=
  if e.schedulerEnabled then e.startScheduler else (false, e.notify .schedulerDisabled)

/-- Stop the scheduler for good. Mirrors `Scheduler::stop`. -/
def stop (e : Engine) : Engine :=
  let stopped := { e with jobs := e.jobs.map PlannedJob.stop, phase := .stopped }
  if e.phase = .started then stopped.notify .schedulerStopped else stopped

/-! ## Tasks -/

def setTask (e : Engine) (i : Nat) (task : Task) : Engine :=
  e.modifyJob i (fun p => { p with task := some task })

/-- Fire a job: a failure becomes a notice. Mirrors `Job::fire`. -/
def fire (e : Engine) (i : Nat) (p : PlannedJob) (vars : Fields Value) : Engine :=
  match e.runPlanned i p vars with
  | (.ok _, e) => e
  | (.error failure, e) => e.notify (.tickFailed p.job.name failure)

/-- Let a timer wait for its next fire time. Mirrors the head of the loop in `run_timer`. -/
def arm (e : Engine) (i : Nat) (p : PlannedJob) (timing : Timing) : Engine :=
  let now := Instant.ofMillis e.now
  match timing.next? now with
  | some next => e.setTask i (.armed (e.elapsed + millisFor (next.nanos - now.nanos)))
  | none => (e.notify (.noFutureFire p.job.name)).setTask i .ended

/-- The time at which a delay from now on is over. -/
def dueAfter (e : Engine) (delay : Span) : Nat := e.elapsed + millisFor delay.total

def fireFor (e : Engine) (i : Nat) (p : PlannedJob) (record : Handle) : Engine :=
  e.fire i p [("record", .record record)]

/-- Let a listener take its next delivery. Mirrors the body of the loop in `run_listener`. -/
def receive (e : Engine) (i : Nat) (p : PlannedJob) (delivery : Delivery) (sub : Subscriber) :
    Engine :=
  match delivery with
  | .lagged count => (e.setTask i (.listening sub)).notify (.eventsDropped p.job.name count)
  | .event event =>
    if p.plan.wants event then
      match p.delay with
      | some delay => e.setTask i (.pending sub event.record (e.dueAfter delay))
      | none => (e.setTask i (.listening sub)).fireFor i p event.record
    else e.setTask i (.listening sub)

/-- What the task of a job does next, if it can do anything without time passing. Mirrors one
round of `run_timer` or `run_listener`. -/
def runTask? (e : Engine) (i : Nat) (p : PlannedJob) : Option Engine :=
  match p.plan, p.task with
  | .timer timing, some .fresh =>
    match p.delay with
    | some delay => some (e.setTask i (.delayed (e.dueAfter delay)))
    | none => some (e.arm i p timing)
  | .timer timing, some (.delayed due) => if due ≤ e.elapsed then some (e.arm i p timing) else none
  | .timer timing, some (.armed due) =>
    if due ≤ e.elapsed then some ((e.fire i p []).arm i p timing) else none
  -- A listener takes one delivery at a time, so that a run can cause the next.
  | .lifecycle _ _, some (.listening sub) =>
    (e.store.next? sub).map (fun (delivery, sub) => e.receive i p delivery sub)
  | .lifecycle _ _, some (.pending sub record due) =>
    if due ≤ e.elapsed then some ((e.setTask i (.listening sub)).fireFor i p record) else none
  | _, _ => none

/-- One step of the first job, from place `i` on, whose task can do something. -/
def stepFrom? (e : Engine) (i : Nat) : List PlannedJob → Option Engine
  | [] => none
  | p :: rest =>
    match e.runTask? i p with
    | some e => some e
    | none => e.stepFrom? (i + 1) rest

/-- One step of the first job whose task can do something. -/
def step? (e : Engine) : Option Engine := e.stepFrom? 0 e.jobs

/-- Let tasks run until none can, or `limit` steps are done. -/
def settleWithin (e : Engine) : Nat → Engine
  | 0 => e
  | limit + 1 =>
    match e.step? with
    | some e => e.settleWithin limit
    | none => e

/-- The greatest number of steps between two points in time. -/
def settleLimit : Nat := 10000000

/-- Let all tasks run that can run without time passing. -/
def settle (e : Engine) : Engine := e.settleWithin settleLimit

/-! ## Time -/

/-- The earliest time that some task waits for. -/
def nextDue? (e : Engine) : Option Nat :=
  (e.jobs.filterMap (fun p => p.task.bind Task.due?)).min?

/-- Let time pass up to `target`, in at most as many stops as the last argument says. -/
def advanceTo (e : Engine) (target : Nat) : Nat → Engine
  | 0 => { e with elapsed := max e.elapsed target }.settle
  | stops + 1 =>
    match e.nextDue? with
    | some due =>
      -- Something is due on the way: stop there first.
      if e.elapsed < due ∧ due ≤ target then
        ({ e with elapsed := due }.settle).advanceTo target stops
      else { e with elapsed := max e.elapsed target }.settle
    | none => { e with elapsed := max e.elapsed target }.settle

/-- Let `millis` milliseconds pass. Each stop is at a later millisecond, so there are at most
`millis` of them. -/
def advance (e : Engine) (millis : Nat) : Engine :=
  e.settle.advanceTo (e.elapsed + millis) (millis + 1)

end Engine

end ServiceEngine
