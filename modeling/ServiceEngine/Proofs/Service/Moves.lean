import Mathlib
import ServiceEngine.Proofs.Lists
import ServiceEngine.Proofs.Store.History
import ServiceEngine.Proofs.Store.Journal
import ServiceEngine.Service.Scheduler

/-!
# The moves of an engine

An engine moves when its host asks for something, when time passes, and when the task of a job takes its
next step. These moves may come in any order (`Engine.Move`), and what the scheduler does by itself is made
of them (`Engine.exists_moves_advance`).

Every move reaches the store through calls alone. `Engine.calls` lists them, and `Engine.leads_perform` says
what a move does: it makes these calls, and leaves the jobs alone whose task does not take a step.
-/

namespace ServiceEngine

/-! ## The events of several calls -/

namespace Store

/-- The events that calls ought to cause, one call after the other. -/
def eventsAll (s : Store) : List Call → List Event
  | [] => []
  | call :: rest => call.events s ++ (call.perform s).eventsAll rest

theorem DistinctRows.performAll {s : Store} (hs : DistinctRows s) (calls : List Call) :
    DistinctRows (s.performAll calls) := by
  induction calls generalizing s with
  | nil => exact hs
  | cons call rest ih => exact ih (hs.perform call)

/-- The journal grows by the events of all calls, in their order. -/
theorem journal_performAll {s : Store} (hs : DistinctRows s) (calls : List Call) :
    (s.performAll calls).journal.toList = s.journal.toList ++ s.eventsAll calls := by
  induction calls generalizing s with
  | nil => simp [performAll, eventsAll]
  | cons call rest ih =>
    have hrest := ih (hs.perform call)
    rw [journal_perform hs call, List.append_assoc] at hrest
    exact hrest

end Store

namespace Engine

/-! ## Moves -/

/-- What can happen to an engine: its host asks for an answer, a run or records, calls the store, moves the
clock or starts the scheduler; time passes; or the task of the job at a place takes its next step. -/
inductive Move where
  | dispatch (method target : String) (body : Option Json)
  | runJob (name : String)
  | seed (data : Json)
  | call (made : Store.Call)
  | setClock (now : Int)
  | advanceClock (millis : Int)
  | start
  | elapse (millis : Nat)
  | task (place : Nat)

/-- The engine after the next step of the task at a place, if this task can do anything now. -/
def runTaskAt (e : Engine) (place : Nat) : Engine :=
  match e.jobs[place]? with
  | some p => (e.runTask? place p).getD e
  | none => e

def perform (e : Engine) : Move → Engine
  | .dispatch method target body => (e.dispatch method target body).2
  | .runJob name => (e.runJob name).2
  | .seed data => (e.seed data).2
  | .call made => { e with store := made.perform e.store }
  | .setClock now => e.setClock now
  | .advanceClock millis => e.advanceClock millis
  | .start => e.start.2
  | .elapse millis => { e with elapsed := e.elapsed + millis }
  | .task place => e.runTaskAt place

def after (e : Engine) (moves : List Move) : Engine := moves.foldl perform e

theorem after_append (e : Engine) (moves more : List Move) :
    e.after (moves ++ more) = (e.after moves).after more := List.foldl_append

theorem after_concat (e : Engine) (moves : List Move) (move : Move) :
    e.after (moves ++ [move]) = (e.after moves).perform move := e.after_append moves [move]

/-! ## The scheduler moves by these moves -/

/-- A step of the scheduler is a step of one of the tasks. -/
theorem exists_move_stepFrom? {e e' : Engine} {jobs : List PlannedJob} {place : Nat}
    (hjobs : ∀ k, jobs[k]? = e.jobs[place + k]?) (h : e.stepFrom? place jobs = some e') :
    ∃ move, e' = e.perform move := by
  induction jobs generalizing place with
  | nil => cases h
  | cons p rest ih =>
    rw [stepFrom?] at h
    cases htask : e.runTask? place p with
    | some next =>
      rw [htask] at h
      cases h
      have hp : e.jobs[place]? = some p := by simpa using (hjobs 0).symm
      refine ⟨.task place, ?_⟩
      simp [perform, runTaskAt, hp, htask]
    | none =>
      -- The search goes on at the next place, with the rest of the jobs.
      rw [htask] at h
      refine ih ?_ h
      intro k
      have hk := hjobs (k + 1)
      rw [List.getElem?_cons_succ] at hk
      rw [hk, Nat.add_assoc, Nat.add_comm 1 k]

/-- Tasks that run until none can do anything are a list of moves. -/
theorem exists_moves_settleWithin (e : Engine) (limit : Nat) : ∃ moves, e.settleWithin limit = e.after moves := by
  induction limit generalizing e with
  | zero => exact ⟨[], rfl⟩
  | succ limit ih =>
    rw [settleWithin]
    cases hstep : e.step? with
    | none => exact ⟨[], rfl⟩
    | some next =>
      obtain ⟨move, rfl⟩ := exists_move_stepFrom? (by simp) hstep
      obtain ⟨moves, hmoves⟩ := ih (e.perform move)
      exact ⟨move :: moves, hmoves⟩

/-- Time that passes up to a later point, and tasks that run there. -/
theorem exists_moves_settle_at (e : Engine) {time : Nat} (htime : e.elapsed ≤ time) :
    ∃ moves, { e with elapsed := time }.settle = e.after moves := by
  obtain ⟨moves, hmoves⟩ := exists_moves_settleWithin { e with elapsed := time } settleLimit
  refine ⟨.elapse (time - e.elapsed) :: moves, ?_⟩
  have hpass : e.perform (.elapse (time - e.elapsed)) = { e with elapsed := time } := by
    simp only [perform]
    rw [Nat.add_sub_cancel' htime]
  rw [settle, hmoves, ← hpass]
  rfl

/-- Time that passes up to a point is a list of moves, with a stop wherever a task is due. -/
theorem exists_moves_advanceTo (e : Engine) (target stops : Nat) :
    ∃ moves, e.advanceTo target stops = e.after moves := by
  induction stops generalizing e with
  | zero => exact exists_moves_settle_at e (le_max_left _ _)
  | succ stops ih =>
    rw [advanceTo]
    split
    · next due _ =>
      split
      · next hdue =>
        -- Time passes up to the next due point, and the tasks run there.
        obtain ⟨first, hfirst⟩ := exists_moves_settle_at e hdue.1.le
        obtain ⟨more, hmore⟩ := ih ({ e with elapsed := due }.settle)
        refine ⟨first ++ more, ?_⟩
        rw [hmore, hfirst, after_append]
      · exact exists_moves_settle_at e (le_max_left _ _)
    · exact exists_moves_settle_at e (le_max_left _ _)

/-- **Letting time pass is a list of moves**: steps of tasks, and time between them. -/
theorem exists_moves_advance (e : Engine) (millis : Nat) : ∃ moves, e.advance millis = e.after moves := by
  obtain ⟨first, hfirst⟩ := exists_moves_settleWithin e settleLimit
  obtain ⟨more, hmore⟩ := exists_moves_advanceTo e.settle (e.elapsed + millis) (millis + 1)
  refine ⟨first ++ more, ?_⟩
  rw [advance, hmore, settle, hfirst, after_append]

/-! ## The turns of a listener -/

/-- What a listener does when its turn comes, and how much of the journal it has read then. -/
inductive Turn where
  /-- It learns how many events it has lost. -/
  | lose (count : Nat) (sub : Subscriber)
  /-- It takes an event that it does not want. -/
  | skip (sub : Subscriber)
  /-- It takes an event and waits out its delay. -/
  | hold (sub : Subscriber) (record : Handle) (due : Nat)
  /-- It runs its body for the record of an event. -/
  | run (sub : Subscriber) (record : Handle)

/-- The task of a listener after a turn. -/
def Turn.task : Turn → Task
  | .lose _ sub => .listening sub
  | .skip sub => .listening sub
  | .hold sub record due => .pending sub record due
  | .run sub _ => .listening sub

/-- What the listener of a job does next, if it can do anything now. -/
def nextTurn? (e : Engine) (p : PlannedJob) : Option Turn :=
  match p.task with
  | some (.listening sub) =>
    match e.store.next? sub with
    | some (.lagged count, sub) => some (.lose count sub)
    | some (.event event, sub) =>
      if p.plan.wants event then
        match p.delay with
        | some delay => some (.hold sub event.record (e.dueAfter delay))
        | none => some (.run sub event.record)
      else some (.skip sub)
    | none => none
  | some (.pending sub record due) => if due ≤ e.elapsed then some (.run sub record) else none
  | _ => none

/-- The engine after a turn of the listener at a place. -/
def takeTurn (e : Engine) (place : Nat) (p : PlannedJob) : Turn → Engine
  | .lose count sub => (e.setTask place (.listening sub)).notify (.eventsDropped p.job.name count)
  | .skip sub => e.setTask place (.listening sub)
  | .hold sub record due => e.setTask place (.pending sub record due)
  | .run sub record => (e.setTask place (.listening sub)).fireFor place p record

/-- **The task of a listener takes turns**: it runs its body in the turns `run` and in no other. -/
theorem runTask?_of_lifecycle (e : Engine) (place : Nat) {p : PlannedJob} {entity : String} {event : EventKind}
    (hplan : p.plan = .lifecycle entity event) :
    e.runTask? place p = (e.nextTurn? p).map (e.takeTurn place p) := by
  unfold runTask? nextTurn?
  rw [hplan]
  -- A listener listens or waits out a delay; the other tasks are those of timers, and no turns.
  rcases htask : p.task with - | (- | due | due | - | sub | ⟨sub, record, due⟩)
  case some.listening =>
    simp only
    rcases e.store.next? sub with - | ⟨event | count, sub⟩
    · rfl
    · simp only [Option.map_some, receive, hplan]
      split
      · cases p.delay <;> rfl
      · rfl
    · rfl
  case some.pending =>
    simp only
    split <;> rfl
  all_goals rfl

/-! ## The store calls of a move -/

def bodyCalls (e : Engine) (vars : Fields Value) (body : List Stmt) : List Store.Call :=
  (Machine.start vars ⟨e.store, #[], e.now⟩).blockCalls body

/-- The records that are made of rows, up to the first one that is no object. -/
def seedRowCalls (entity : String) : List Json → List Store.Call
  | .object members :: rows => .create entity (Value.ofMembers members) :: seedRowCalls entity rows
  | _ => []

/-- Whether every row is an object. -/
def allObjects : List Json → Bool
  | [] => true
  | .object _ :: rows => allObjects rows
  | _ => false

/-- The records that are made of tables, up to the first mistake. -/
def seedTableCalls : List (String × Json) → List Store.Call
  | (entity, .array rows) :: tables =>
    seedRowCalls entity rows ++ if allObjects rows then seedTableCalls tables else []
  | _ => []

def turnCalls (e : Engine) (p : PlannedJob) : Turn → List Store.Call
  | .run _ record => e.bodyCalls [("record", .record record)] p.job.body
  | _ => []

def taskCalls (e : Engine) (p : PlannedJob) : List Store.Call :=
  match p.plan with
  | .timer _ =>
    match p.task with
    | some (.armed due) => if due ≤ e.elapsed then e.bodyCalls [] p.job.body else []
    | _ => []
  | .lifecycle _ _ => (e.nextTurn? p).elim [] (e.turnCalls p)

def calls (e : Engine) : Move → List Store.Call
  | .dispatch method target body =>
    match Route.resolve? e.endpoints method target body with
    | some (endpoint, vars) => e.bodyCalls vars endpoint.body
    | none => []
  | .runJob name =>
    match (e.jobIndex? name).bind (fun i => e.jobs[i]?.map (fun p => (i, p))) with
    | some (_, p) => e.bodyCalls p.manualBindings p.job.body
    | none => []
  | .seed (.object tables) => seedTableCalls tables
  | .call made => [made]
  | .task place =>
    match e.jobs[place]? with
    | some p => e.taskCalls p
    | none => []
  | _ => []

end Engine

/-! ## What a move does -/

/-- A job without its state, which only says whether it runs now. -/
def PlannedJob.stateless (p : PlannedJob) : PlannedJob := { p with state := .idle }

namespace Engine

/-- An engine has come to another one by store calls: it is in the same phase, its jobs have the same plans,
and those at the spared places are the same but for their state. -/
structure Leads (spared : Nat → Prop) (e : Engine) (calls : List Store.Call) (e' : Engine) : Prop where
  store_eq : e'.store = e.store.performAll calls
  phase_eq : e'.phase = e.phase
  plans_eq : e'.jobs.map PlannedJob.plan = e.jobs.map PlannedJob.plan
  job_eq : ∀ place, spared place →
    e'.jobs[place]?.map PlannedJob.stateless = e.jobs[place]?.map PlannedJob.stateless

namespace Leads

variable {spared : Nat → Prop} {e e₁ e₂ : Engine} {calls more : List Store.Call}

theorem of_same (hstore : e₁.store = e.store) (hphase : e₁.phase = e.phase) (hjobs : e₁.jobs = e.jobs) :
    Leads spared e [] e₁ :=
  ⟨hstore, hphase, by rw [hjobs], fun _ _ => by rw [hjobs]⟩

theorem trans (h : Leads spared e calls e₁) (h' : Leads spared e₁ more e₂) :
    Leads spared e (calls ++ more) e₂ where
  store_eq := by rw [h'.store_eq, h.store_eq, Store.performAll_append]
  phase_eq := h'.phase_eq.trans h.phase_eq
  plans_eq := h'.plans_eq.trans h.plans_eq
  job_eq place hplace := (h'.job_eq place hplace).trans (h.job_eq place hplace)

theorem andThen (h : Leads spared e calls e₁) (h' : Leads spared e₁ [] e₂) : Leads spared e calls e₂ := by
  simpa using h.trans h'

/-- A change of one job that leaves its plan alone, and all but the state if the job is spared. -/
theorem modifyJob (e : Engine) (place : Nat) {f : PlannedJob → PlannedJob} (hplan : ∀ p, (f p).plan = p.plan)
    (hspared : spared place → ∀ p, (f p).stateless = p.stateless) : Leads spared e [] (e.modifyJob place f) := by
  refine ⟨rfl, rfl, ?_, ?_⟩
  -- The plans stay at all places.
  · apply List.ext_getElem?
    intro k
    simp only [Engine.modifyJob, List.getElem?_map, List.getElem?_modify]
    cases e.jobs[k]? with
    | none => rfl
    | some p => by_cases heq : place = k <;> simp [heq, hplan]
  -- The job is another one, or only its state is changed.
  · intro k hk
    simp only [Engine.modifyJob, List.getElem?_modify]
    cases e.jobs[k]? with
    | none => rfl
    | some p =>
      by_cases heq : place = k
      · simp [heq, hspared (heq ▸ hk)]
      · simp [heq]

end Leads

theorem leads_notify (spared : Nat → Prop) (e : Engine) (notice : Notice) : Leads spared e [] (e.notify notice) :=
  .of_same rfl rfl rfl

theorem leads_lines (spared : Nat → Prop) (lines : List String) (e : Engine) :
    Leads spared e [] (lines.foldl (fun e line => e.notify (.line line)) e) := by
  induction lines generalizing e with
  | nil => exact .of_same rfl rfl rfl
  | cons line rest ih => exact (leads_notify spared e (.line line)).andThen (ih _)

theorem leads_setTask (e : Engine) (place : Nat) (task : Task) : Leads (· ≠ place) e [] (e.setTask place task) :=
  .modifyJob e place (fun _ => rfl) (fun hne => absurd rfl hne)

/-- **A body makes its calls**, and what it logs changes nothing that counts. -/
theorem leads_runBody (spared : Nat → Prop) (e : Engine) (vars : Fields Value) (body : List Stmt) :
    Leads spared e (e.bodyCalls vars body) (e.runBody vars body).2 := by
  have hbody := (Machine.start vars ⟨e.store, #[], e.now⟩).store_runBody body
  unfold runBody
  generalize (Machine.start vars ⟨e.store, #[], e.now⟩).runBody body = result at hbody ⊢
  obtain ⟨outcome, m⟩ := result
  simp only [← Array.foldl_toList]
  have hstore : Leads spared e (e.bodyCalls vars body) { e with store := m.world.store } :=
    ⟨hbody, rfl, rfl, fun _ _ => rfl⟩
  exact hstore.andThen (leads_lines spared m.world.log.toList _)

/-- A run changes the state of its job, and the body makes the calls. -/
theorem leads_runPlanned (spared : Nat → Prop) (e : Engine) (place : Nat) (p : PlannedJob) (vars : Fields Value) :
    Leads spared e (e.bodyCalls vars p.job.body) (e.runPlanned place p vars).2 := by
  -- The state of the job changes before and after the run, and nothing else does.
  have hbegin : Leads spared e [] (e.modifyJob place (fun p => { p with state := .running })) :=
    .modifyJob e place (fun _ => rfl) (fun _ _ => rfl)
  refine (hbegin.trans (leads_runBody spared _ vars p.job.body)).andThen ?_
  exact .modifyJob _ place (fun _ => rfl) (fun _ _ => rfl)

theorem leads_fire (spared : Nat → Prop) (e : Engine) (place : Nat) (p : PlannedJob) (vars : Fields Value) :
    Leads spared e (e.bodyCalls vars p.job.body) (e.fire place p vars) := by
  have hrun := leads_runPlanned spared e place p vars
  unfold fire
  generalize e.runPlanned place p vars = result at hrun ⊢
  obtain ⟨failure | v, e'⟩ := result
  · exact hrun.andThen (leads_notify spared e' _)
  · exact hrun

/-- A timer that is armed, or has no time left to fire, is changed in its task only. -/
theorem leads_arm (e : Engine) (place : Nat) (p : PlannedJob) (timing : Timing) :
    Leads (· ≠ place) e [] (e.arm place p timing) := by
  unfold arm
  simp only
  split
  · exact leads_setTask e place _
  · exact (leads_notify _ e _).andThen (leads_setTask _ place _)

/-- The listener has its next task before it gives notice or runs its body. -/
theorem leads_takeTurn (spared : Nat → Prop) (e : Engine) (place : Nat) (p : PlannedJob) (turn : Turn) :
    Leads spared (e.setTask place turn.task) (e.turnCalls p turn) (e.takeTurn place p turn) := by
  cases turn with
  | lose count sub => exact leads_notify _ _ _
  | skip sub => exact .of_same rfl rfl rfl
  | hold sub record due => exact .of_same rfl rfl rfl
  | run sub record => exact leads_fire _ _ place p _

/-- The step of a timer: it waits out its delay, is armed, or fires and is armed again. -/
theorem leads_timer {e e' : Engine} {place : Nat} {p : PlannedJob} {timing : Timing}
    (hplan : p.plan = .timer timing) (h : e.runTask? place p = some e') :
    Leads (· ≠ place) e (e.taskCalls p) e' := by
  unfold runTask? at h
  unfold taskCalls
  rw [hplan] at h ⊢
  cases htask : p.task with
  | none =>
    rw [htask] at h
    cases h
  | some task =>
    rw [htask] at h
    cases task with
    -- The task waits out the delay first, or is armed at once.
    | fresh =>
      simp only at h ⊢
      split at h <;> cases h
      · exact leads_setTask e place _
      · exact leads_arm e place p timing
    | delayed due =>
      simp only at h ⊢
      split at h <;> cases h
      exact leads_arm e place p timing
    -- Only an armed task runs the job, and it is armed again.
    | armed due =>
      simp only at h ⊢
      split at h <;> cases h
      next hdue =>
        rw [if_pos hdue]
        exact (leads_fire _ e place p []).andThen (leads_arm _ place p timing)
    | _ => cases h

/-- The step of a task makes its calls, and spares all other jobs. -/
theorem leads_runTask? {e e' : Engine} {place : Nat} {p : PlannedJob} (h : e.runTask? place p = some e') :
    Leads (· ≠ place) e (e.taskCalls p) e' := by
  cases hplan : p.plan with
  | timer timing => exact leads_timer hplan h
  | lifecycle entity event =>
    rw [runTask?_of_lifecycle e place hplan] at h
    obtain ⟨turn, hturn, rfl⟩ := Option.map_eq_some_iff.mp h
    unfold taskCalls
    rw [hplan, hturn]
    -- The change of the task is the only one that touches the job beyond its state.
    exact (leads_setTask e place turn.task).trans (leads_takeTurn _ e place p turn)

/-- A task that can do nothing makes no calls. -/
theorem taskCalls_of_none {e : Engine} {place : Nat} {p : PlannedJob} (h : e.runTask? place p = none) :
    e.taskCalls p = [] := by
  unfold taskCalls
  cases hplan : p.plan with
  | timer timing =>
    unfold runTask? at h
    rw [hplan] at h
    cases htask : p.task with
    | none => rfl
    | some task =>
      rw [htask] at h
      cases task with
      -- A task that is due could run.
      | armed due =>
        simp only at h ⊢
        split at h
        · cases h
        · next hdue => exact if_neg hdue
      | _ => rfl
  | lifecycle entity event =>
    rw [runTask?_of_lifecycle e place hplan] at h
    simp only [Option.map_eq_none_iff.mp h, Option.elim_none]

/-! ## Seeding -/

/-- The rows of one entity are created up to the first that is no object. -/
theorem seedRows_eq (entity : String) (rows : List Json) (count : Nat) (s : Store) :
    (seedRows entity rows count s).2 = s.performAll (seedRowCalls entity rows) ∧
      ((∃ total, (seedRows entity rows count s).1 = .ok total) ↔ allObjects rows = true) := by
  induction rows generalizing count s with
  | nil => exact ⟨rfl, by simp [seedRows, allObjects]⟩
  | cons row rows ih =>
    cases row with
    | object members => exact ih (count + 1) (s.create entity (Value.ofMembers members)).2
    | _ => exact ⟨rfl, by simp [seedRows, allObjects]⟩

/-- **Seeding makes the calls of its tables**, up to the first mistake. -/
theorem store_seedTables (tables : List (String × Json)) (count : Nat) (s : Store) :
    (seedTables tables count s).2 = s.performAll (seedTableCalls tables) := by
  induction tables generalizing count s with
  | nil => rfl
  | cons table tables ih =>
    obtain ⟨entity, rows⟩ := table
    cases rows with
    | array rows =>
      obtain ⟨hstore, hall⟩ := seedRows_eq entity rows count s
      rw [seedTables, seedTableCalls, Store.performAll_append, ← hstore]
      generalize seedRows entity rows count s = result at hall ⊢
      obtain ⟨why | total, s'⟩ := result
      -- The first mistake ends the seeding.
      · have hnot : allObjects rows = false := by simpa using hall
        simp [hnot, Store.performAll]
      · have hyes : allObjects rows = true := hall.mp ⟨total, rfl⟩
        simp only [hyes, if_true]
        exact ih total s'
    | _ => rfl

/-! ## All moves -/

/-- The places of the jobs that a move spares. -/
def Move.spares : Move → Nat → Prop
  | .task place, other => other ≠ place
  | _, _ => True

theorem snd_answer (result : Except Failure Value × Engine) : (answer result).2 = result.2 := by
  rcases result with ⟨_ | _, _⟩ <;> rfl

/-- **What a move does.** It makes its calls and spares all jobs but the one whose task takes a step; the
start of the scheduler is another matter. -/
theorem leads_perform (e : Engine) {move : Move} (hmove : move ≠ .start) :
    Leads move.spares e (e.calls move) (e.perform move) := by
  cases move with
  -- Requests and jobs run a body, and the answer is made from its outcome.
  | dispatch method target body =>
    simp only [perform, dispatch, calls]
    rcases Route.resolve? e.endpoints method target body with - | ⟨endpoint, vars⟩
    · exact .of_same rfl rfl rfl
    · simp only [snd_answer]
      exact leads_runBody _ e vars endpoint.body
  | runJob name =>
    simp only [perform, runJob, calls]
    rcases (e.jobIndex? name).bind (fun i => e.jobs[i]?.map (fun p => (i, p))) with - | ⟨place, p⟩
    · exact .of_same rfl rfl rfl
    · simp only [snd_answer]
      exact leads_runPlanned _ e place p p.manualBindings
  -- Seeding makes the records row by row; data that are no object make none.
  | seed data =>
    cases data with
    | object tables => exact ⟨store_seedTables tables 0 e.store, rfl, rfl, fun _ _ => rfl⟩
    | _ => exact .of_same rfl rfl rfl
  | call made => exact ⟨rfl, rfl, rfl, fun _ _ => rfl⟩
  -- The clock is in no record, and in no plan.
  | setClock now =>
    simp only [perform, setClock]
    split <;> exact .of_same rfl rfl rfl
  | advanceClock millis =>
    simp only [perform, advanceClock]
    split <;> exact .of_same rfl rfl rfl
  | start => exact absurd rfl hmove
  | elapse millis => exact .of_same rfl rfl rfl
  | task place =>
    simp only [perform, runTaskAt, calls]
    cases hjob : e.jobs[place]? with
    -- A task without a job, or one that can do nothing, leaves all as it was.
    | none => exact .of_same rfl rfl rfl
    | some p =>
      cases htask : e.runTask? place p with
      | none =>
        simp only [taskCalls_of_none htask, htask, Option.getD_none]
        exact .of_same rfl rfl rfl
      | some next =>
        simp only [htask, Option.getD_some]
        exact leads_runTask? htask

/-! ## Engines of programs -/

/-- A scheduler that is started gives notice, and that is all. -/
theorem start_of_started {e : Engine} (h : e.phase = .started) :
    ∃ notice, e.perform .start = e.notify notice := by
  simp only [perform, start, startScheduler, h]
  split
  · exact ⟨_, rfl⟩
  · exact ⟨_, rfl⟩

/-- A start changes neither the store nor the plans. -/
theorem start_spec (e : Engine) :
    (e.perform .start).store = e.store ∧
      (e.perform .start).jobs.map PlannedJob.plan = e.jobs.map PlannedJob.plan := by
  simp only [perform, start, startScheduler]
  split
  · split
    · refine ⟨rfl, ?_⟩
      simp only [notify, List.map_map]
      rfl
    · exact ⟨rfl, rfl⟩
  · exact ⟨rfl, rfl⟩

/-- What every engine of a program keeps: the rows of a table are different records, and the jobs have the
plans of their triggers. -/
structure Sound (plans : List Plan) (e : Engine) : Prop where
  distinct : Store.DistinctRows e.store
  plans_eq : e.jobs.map PlannedJob.plan = plans

theorem Sound.perform {plans : List Plan} {e : Engine} (h : Sound plans e) (move : Move) :
    Sound plans (e.perform move) := by
  by_cases hmove : move = .start
  · obtain ⟨hstore, hplans⟩ := e.start_spec
    rw [hmove]
    exact ⟨hstore ▸ h.distinct, hplans.trans h.plans_eq⟩
  · have hleads := e.leads_perform hmove
    refine ⟨?_, hleads.plans_eq.trans h.plans_eq⟩
    rw [hleads.store_eq]
    exact h.distinct.performAll _

theorem Sound.after {plans : List Plan} {e : Engine} (h : Sound plans e) (moves : List Move) :
    Sound plans (e.after moves) := by
  induction moves generalizing e with
  | nil => exact h
  | cons move rest ih => exact ih (h.perform move)

/-- A listener has the plan of its trigger, whatever its delay. -/
theorem plan_of_ofJob {job : Job} {p : PlannedJob} {entity : String} {event : EventKind}
    (htrigger : job.trigger = .lifecycle entity event) (h : PlannedJob.ofJob job = .ok p) :
    p.plan = .lifecycle entity event := by
  unfold PlannedJob.ofJob at h
  rw [htrigger] at h
  cases hdelay : job.delay with
  | none =>
    rw [hdelay] at h
    cases h
    rfl
  | some text =>
    rw [hdelay] at h
    simp only at h
    cases hspan : Span.ofDelay text with
    -- A delay that cannot be read makes no job.
    | error why =>
      rw [hspan] at h
      cases h
    | ok span =>
      rw [hspan] at h
      cases h
      rfl

theorem ofProgram_spec {program : Program} {enabled : Bool} {clock : Clock} {e : Engine}
    (h : ofProgram program enabled clock = .ok e) :
    Store.DistinctRows e.store ∧
      List.Forall₂ (fun job p => PlannedJob.ofJob job = .ok p) program.jobs e.jobs := by
  unfold ofProgram at h
  cases hjobs : program.jobs.mapM PlannedJob.ofJob with
  | error why =>
    rw [hjobs] at h
    cases h
  | ok jobs =>
    rw [hjobs] at h
    cases h
    refine ⟨?_, forall₂_of_mapM hjobs⟩
    -- The store has seen the definitions of the models and nothing else.
    have hdefined := Store.distinctRows_empty.performAll (program.models.map (fun m => .define m.name m.defaults))
    rwa [Store.performAll, List.foldl_map] at hdefined

/-- The rows of an engine's tables are different records whatever has happened, and a job has the plan of its
trigger. -/
theorem after_spec {program : Program} {enabled : Bool} {clock : Clock} {e : Engine}
    (h : ofProgram program enabled clock = .ok e) (moves : List Move) {place : Nat} {job : Job}
    {entity : String} {event : EventKind} (hjob : program.jobs[place]? = some job)
    (htrigger : job.trigger = .lifecycle entity event) :
    Store.DistinctRows (e.after moves).store ∧
      ∃ p, (e.after moves).jobs[place]? = some p ∧ p.plan = .lifecycle entity event := by
  obtain ⟨hdistinct, hjobs⟩ := ofProgram_spec h
  have hsound : Sound (e.jobs.map PlannedJob.plan) e := ⟨hdistinct, rfl⟩
  have hafter := hsound.after moves
  refine ⟨hafter.distinct, ?_⟩
  obtain ⟨p, hp, hplanned⟩ := exists_of_forall₂ hjobs hjob
  have hplan : ((e.after moves).jobs.map PlannedJob.plan)[place]? = some (.lifecycle entity event) := by
    rw [hafter.plans_eq, List.getElem?_map, hp, Option.map_some, plan_of_ofJob htrigger hplanned]
  rw [List.getElem?_map] at hplan
  exact Option.map_eq_some_iff.mp hplan

end Engine

end ServiceEngine
