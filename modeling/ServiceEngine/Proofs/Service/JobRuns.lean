import Mathlib
import ServiceEngine.Proofs.Lists
import ServiceEngine.Proofs.Service.Overlap

/-!
# Overlapping runs of an engine's jobs

A run of a job takes three steps: it begins, which makes the job `running`; its body runs, and ends with a
value or fails; it ends, which gives the state back. The engine takes the three at one go
(`Engine.runPlanned`). Here the steps of any number of runs, of one job or of several, may come in any order
(`RunningEngine.step`), and a run that is under way is a `JobRun`.

What one job sees of all this is an `Overlap` (`RunningEngine.Shows`), so what holds there holds here
(`RunningEngine.runs_give_back_state`).
-/

namespace ServiceEngine

/-! ## Runs under way -/

/-- A run under way: the place of its job, the body and the names that it sees, the state that it remembers,
and how the body ended, once it has. -/
structure JobRun where
  place : Nat
  body : List Stmt
  vars : Fields Value
  remembered : JobState
  outcome : Option (Except Failure Value)

/-- What the run remembers, if it is a run of the job at a place. -/
def JobRun.remembers? (place : Nat) (run : JobRun) : Option JobState :=
  if run.place = place then some run.remembered else none

/-- An engine and the runs of its jobs that are under way. -/
structure RunningEngine where
  engine : Engine
  runs : List JobRun

namespace RunningEngine

/-- A step of a run: the job at a place begins one; a run under way, known by its number, runs its body, or
ends. -/
inductive Move where
  | begin (place : Nat) (vars : Fields Value)
  | work (k : Nat)
  | finish (k : Nat)

/-- The engine and the runs after a step. The body of a run runs once, and only then the run can end. -/
def step (b : RunningEngine) : Move → RunningEngine
  | .begin place vars =>
    match b.engine.jobs[place]? with
    | some p =>
      let (remembered, state) := p.state.beginRun
      ⟨b.engine.modifyJob place (fun p => { p with state }),
        b.runs ++ [⟨place, p.job.body, vars, remembered, none⟩]⟩
    | none => b
  | .work k =>
    match b.runs[k]? with
    | some f =>
      if f.outcome.isNone then
        let (result, engine) := b.engine.runBody f.vars f.body
        ⟨engine, b.runs.set k { f with outcome := some result }⟩
      else b
    | none => b
  | .finish k =>
    match b.runs[k]? with
    | some f =>
      if f.outcome.isSome then
        ⟨b.engine.modifyJob f.place (fun p => { p with state := JobState.endRun f.remembered p.state }),
          b.runs.eraseIdx k⟩
      else b
    | none => b

def after (b : RunningEngine) (moves : List Move) : RunningEngine := moves.foldl step b

/-- The state of the job at a place. -/
def state? (b : RunningEngine) (place : Nat) : Option JobState := b.engine.jobs[place]?.map PlannedJob.state

/-- What the runs under way of the job at a place remember. -/
def remembered (b : RunningEngine) (place : Nat) : List JobState := b.runs.filterMap (JobRun.remembers? place)

end RunningEngine

/-! ## Jobs -/

namespace Engine

theorem state_modifyJob (e : Engine) (i place : Nat) (f : PlannedJob → PlannedJob) :
    (e.modifyJob i f).jobs[place]?.map PlannedJob.state =
      e.jobs[place]?.map (fun p => if i = place then (f p).state else p.state) := by
  rw [modifyJob, List.getElem?_modify]
  cases e.jobs[place]? with
  | none => rfl
  | some p => by_cases heq : i = place <;> simp [heq]

/-- A body does not touch the jobs, whether it ends or fails. -/
theorem jobs_runBody (e : Engine) (vars : Fields Value) (body : List Stmt) :
    (e.runBody vars body).2.jobs = e.jobs := by
  have hlines : ∀ (lines : List String) (e : Engine),
      (lines.foldl (fun e line => e.notify (.line line)) e).jobs = e.jobs := by
    intro lines
    induction lines with
    | nil => exact fun _ => rfl
    | cons line rest ih => exact fun e => ih (e.notify (.line line))
  unfold runBody
  simp only [← Array.foldl_toList]
  exact hlines _ _

end Engine

/-! ## What one job sees -/

namespace RunningEngine

variable {b : RunningEngine} {place : Nat} {c : Overlap}

/-- The job at a place is in the state that the overlap has, and its runs under way remember the same. -/
structure Shows (b : RunningEngine) (place : Nat) (c : Overlap) : Prop where
  state_eq : b.state? place = some c.state
  remembered_eq : b.remembered place = c.unfinished

/-- A run that begins is one of this job or of another one. -/
theorem Shows.begin (h : b.Shows place c) (i : Nat) (vars : Fields Value) :
    (b.step (.begin i vars)).Shows place c ∨ (b.step (.begin i vars)).Shows place (c.step .beginRun) := by
  obtain ⟨hstate, hremembered⟩ := h
  simp only [step]
  cases hjob : b.engine.jobs[i]? with
  | none => exact .inl ⟨hstate, hremembered⟩
  | some p =>
    by_cases heq : i = place
    -- The run is one of this job, so the state that it finds is the one of the job.
    · subst heq
      have hp : p.state = c.state := by simpa [state?, hjob] using hstate
      refine .inr ⟨?_, ?_⟩
      · simp [state?, Engine.state_modifyJob, hjob, Overlap.step, JobState.beginRun]
      · simp [remembered, JobRun.remembers?, Overlap.step, JobState.beginRun, ← hremembered, hp]
    · refine .inl ⟨?_, ?_⟩
      · rw [state?, Engine.state_modifyJob]
        simp only [if_neg heq]
        exact hstate
      · simpa [remembered, JobRun.remembers?, heq] using hremembered

/-- A body that runs is not seen by the job. -/
theorem Shows.work (h : b.Shows place c) (k : Nat) : (b.step (.work k)).Shows place c := by
  obtain ⟨hstate, hremembered⟩ := h
  simp only [step]
  cases hfound : b.runs[k]? with
  | none => exact ⟨hstate, hremembered⟩
  | some f =>
    simp only
    split
    · refine ⟨?_, ?_⟩
      · rw [state?, Engine.jobs_runBody]
        exact hstate
      -- The outcome is not among what a job remembers of its runs.
      · have hsame : ∀ outcome, JobRun.remembers? place { f with outcome } = f.remembers? place :=
          fun _ => rfl
        exact (filterMap_set_of_same hfound _ (hsame _)).trans hremembered
    · exact ⟨hstate, hremembered⟩

/-- A run that ends is one of this job or of another one. -/
theorem Shows.finish (h : b.Shows place c) (k : Nat) :
    (b.step (.finish k)).Shows place c ∨ ∃ j, (b.step (.finish k)).Shows place (c.step (.endRun j)) := by
  obtain ⟨hstate, hremembered⟩ := h
  simp only [step]
  cases hfound : b.runs[k]? with
  | none => exact .inl ⟨hstate, hremembered⟩
  | some f =>
    simp only
    split
    · by_cases heq : f.place = place
      -- The run has a number among the runs of this job too.
      · have hview : f.remembers? place = some f.remembered := if_pos heq
        obtain ⟨j, hj, herase⟩ := filterMap_eraseIdx_of_some hfound hview
        rw [remembered] at hremembered
        rw [hremembered] at hj herase
        refine .inr ⟨j, ?_, ?_⟩
        · obtain ⟨p, hp, hpstate⟩ := Option.map_eq_some_iff.mp hstate
          simp [state?, Engine.state_modifyJob, heq, hp, hpstate, Overlap.step, hj]
        · simpa [remembered, Overlap.step, hj] using herase
      · refine .inl ⟨?_, ?_⟩
        · rw [state?, Engine.state_modifyJob]
          simp only [if_neg heq]
          exact hstate
        · exact (filterMap_eraseIdx_of_none hfound (if_neg heq)).trans hremembered
    · exact .inl ⟨hstate, hremembered⟩

/-- A job sees a step as one of its own runs, or not at all. -/
theorem Shows.step (h : b.Shows place c) (move : Move) :
    (b.step move).Shows place c ∨ ∃ seen : Overlap.Move, seen.IsRun ∧ (b.step move).Shows place (c.step seen) := by
  cases move with
  | begin i vars =>
    rcases h.begin i vars with h | h
    · exact .inl h
    · exact .inr ⟨.beginRun, trivial, h⟩
  | work k => exact .inl (h.work k)
  | finish k =>
    rcases h.finish k with h | ⟨j, h⟩
    · exact .inl h
    · exact .inr ⟨.endRun j, trivial, h⟩

/-- The invariant of overlapping runs, of the job at a place. -/
def GivesBack (base : JobState) (b : RunningEngine) (place : Nat) : Prop := ∃ c, b.Shows place c ∧ c.GivesBack base

/-- **Any steps of any runs keep the state that is given back.** -/
theorem GivesBack.after {base : JobState} (hbase : base ≠ .running) (h : GivesBack base b place)
    (moves : List Move) : GivesBack base (b.after moves) place := by
  induction moves generalizing b with
  | nil => exact h
  | cons move rest ih =>
    apply ih
    obtain ⟨c, hshows, hback⟩ := h
    rcases hshows.step move with hshows | ⟨seen, hrun, hshows⟩
    · exact ⟨c, hshows, hback⟩
    · exact ⟨c.step seen, hshows, hback.runStep hbase hrun⟩

theorem remembered_eq_nil_iff : b.remembered place = [] ↔ ∀ f ∈ b.runs, f.place ≠ place := by
  simp [remembered, List.filterMap_eq_nil_iff, JobRun.remembers?]

/-- The state is given back at first, since no run of the job is under way. -/
theorem givesBack_of_quiet {base : JobState} (hstate : b.state? place = some base) (hbase : base ≠ .running)
    (hquiet : ∀ f ∈ b.runs, f.place ≠ place) : GivesBack base b place :=
  ⟨⟨b.engine.phase, base, []⟩, ⟨hstate, remembered_eq_nil_iff.mpr hquiet⟩,
    Overlap.givesBack_of_quiet rfl hbase rfl⟩

/-! ## The state comes back -/

theorem after_run (b : RunningEngine) {p : PlannedJob} (hjob : b.engine.jobs[place]? = some p) (vars : Fields Value) :
    b.after [.begin place vars, .work b.runs.length, .finish b.runs.length] =
      ⟨(b.engine.runPlanned place p vars).2, b.runs⟩ := by
  simp [after, RunningEngine.step, hjob, Engine.runPlanned, List.eraseIdx_append_of_length_le]

/-- **Overlapping runs give the state back.** A job in a state other than `running`, none of whose runs is
under way, is in this state or `running` after any steps of any runs, its own and those of other jobs, in
any order and whatever the outcome of their bodies; and it is in this state again whenever none of its runs
is under way. A run of the engine is one of these runs, with no step of another in between. -/
theorem runs_give_back_state (b : RunningEngine) (place : Nat) (base : JobState) (hstate : b.state? place = some base)
    (hbase : base ≠ .running) (hquiet : ∀ f ∈ b.runs, f.place ≠ place) :
    (∀ moves, ((b.after moves).state? place = some base ∨ (b.after moves).state? place = some .running) ∧
      ((∀ f ∈ (b.after moves).runs, f.place ≠ place) → (b.after moves).state? place = some base)) ∧
    ∀ p vars, b.engine.jobs[place]? = some p →
      b.after [.begin place vars, .work b.runs.length, .finish b.runs.length] =
        ⟨(b.engine.runPlanned place p vars).2, b.runs⟩ := by
  refine ⟨?_, fun p vars hjob => b.after_run hjob vars⟩
  intro moves
  obtain ⟨c, hshows, hback⟩ := (givesBack_of_quiet hstate hbase hquiet).after hbase moves
  rw [hshows.state_eq]
  refine ⟨?_, ?_⟩
  · exact hback.state_cases.imp (congrArg some) (congrArg some)
  · intro hended
    have hnone : c.unfinished = [] := hshows.remembered_eq.symm.trans (remembered_eq_nil_iff.mpr hended)
    rw [hback.state_eq hnone]

/-- The body of a job fails. Three of its runs overlap: the second begins in the first, which ends before
it, and the third begins then and outlasts the second. The job is scheduled again. -/
theorem runs_give_back_state_of_failures :
    let body : List Stmt := [.expression (.identifier "missing")]
    let p : PlannedJob := ⟨⟨"tick", .lifecycle "User" .created, none, body⟩, .lifecycle "User" .created, none,
      .scheduled, none⟩
    let b : RunningEngine := ⟨⟨true, [], [p], .started, Store.empty, .fixed 0, 0, #[]⟩, []⟩
    let moves : List Move := [.begin 0 [], .begin 0 [], .work 1, .work 0, .finish 0, .begin 0 [], .finish 0,
      .work 0]
    b.state? 0 = some .scheduled ∧
      (b.engine.runBody [] body).1 = .error ⟨[0], "expression", .unbound "missing"⟩ ∧
      (b.after moves).state? 0 = some .running ∧
      (b.after (moves ++ [.finish 0])).state? 0 = some .scheduled := by
  intro body p b moves
  obtain ⟨hback, -⟩ := runs_give_back_state b 0 .scheduled rfl (by decide) (by simp [b])
  have hended : (b.after (moves ++ [.finish 0])).runs = [] := by
    simp [moves, b, after, RunningEngine.step, p, Engine.modifyJob, Engine.jobs_runBody]
  have hlast := (hback (moves ++ [.finish 0])).2
  rw [hended] at hlast
  refine ⟨rfl, by cbv, ?_, hlast (by simp)⟩
  simp [moves, b, after, RunningEngine.step, state?, p, Engine.modifyJob, Engine.jobs_runBody, JobState.beginRun,
    JobState.endRun]

end RunningEngine

end ServiceEngine
