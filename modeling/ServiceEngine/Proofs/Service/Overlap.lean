import Mathlib
import ServiceEngine.Service.Engine

/-!
# Runs that overlap

Runs of a job may overlap: each remembers the state that it found, makes the job `running`, and later gives
back what it remembers if the job is `running` then. Here the begin and the end of each run are steps of
their own, which start, stop and other runs may come between.

A state is given back (`Overlap.GivesBack`) as long as every unfinished run found that state or another run
under way. So a stop is for good once the runs that it found have ended (`Overlap.stopped_of_quiet`). If
another run begins before that, the state before the stop may come back
(`Overlap.stop_undone_by_overlap`).
-/

namespace ServiceEngine

/-- A job, the phase of its scheduler, and what each unfinished run remembers. -/
structure Overlap where
  phase : Phase
  state : JobState
  unfinished : List JobState
  deriving DecidableEq

namespace Overlap

/-- A step of the scheduler or of a run of the job; unfinished runs are known by their place. -/
inductive Move where
  | start
  | stop
  | beginRun
  | endRun (place : Nat)
  deriving DecidableEq

/-- The step is one of a run, neither a start nor a stop. -/
def Move.IsRun : Move → Prop
  | .beginRun => True
  | .endRun _ => True
  | .start => False
  | .stop => False

/-- The job after a step. Only an idle scheduler can be started, and only an unfinished run can end. -/
def step (c : Overlap) : Move → Overlap
  | .start => if c.phase = .idle then { c with phase := .started, state := .scheduled } else c
  | .stop => { c with phase := .stopped, state := .stopped }
  | .beginRun =>
    let (remembered, state) := c.state.beginRun
    { c with state, unfinished := c.unfinished ++ [remembered] }
  | .endRun place =>
    match c.unfinished[place]? with
    | some remembered =>
      { c with state := JobState.endRun remembered c.state, unfinished := c.unfinished.eraseIdx place }
    | none => c

def after (c : Overlap) (moves : List Move) : Overlap := moves.foldl step c

/-- A job before its scheduler is started. -/
def initial : Overlap := ⟨.idle, .idle, []⟩

theorem after_append (c : Overlap) (moves more : List Move) :
    c.after (moves ++ more) = (c.after moves).after more := List.foldl_append

/-- The phase is the scheduler's, and the end of a run does not touch it. -/
theorem phase_endRun (c : Overlap) (place : Nat) : (c.step (.endRun place)).phase = c.phase := by
  cases hfound : c.unfinished[place]? <;> simp [step, hfound]

/-! ## States that are given back -/

/-- Every unfinished run remembers `base` or that another run was under way; and while the job is running,
one of them remembers `base`. -/
structure GivesBack (base : JobState) (c : Overlap) : Prop where
  state_cases : c.state = base ∨ c.state = .running
  remembered : ∀ r ∈ c.unfinished, r = base ∨ r = .running
  running : c.state = .running → base ∈ c.unfinished

variable {base : JobState} {c : Overlap}

/-- Without unfinished runs the state that a job is in is given back. -/
theorem givesBack_of_quiet (hstate : c.state = base) (hbase : base ≠ .running) (hquiet : c.unfinished = []) :
    GivesBack base c := by
  refine ⟨.inl hstate, ?_, ?_⟩
  · simp [hquiet]
  · intro hrunning
    exact absurd (hstate.symm.trans hrunning) hbase

/-- A run that begins remembers `base` or another run. -/
theorem GivesBack.beginRun (h : GivesBack base c) : GivesBack base (c.step .beginRun) := by
  refine ⟨.inr rfl, ?_, ?_⟩
  · intro r hr
    rcases List.mem_append.mp hr with hr | hr
    · exact h.remembered r hr
    · rw [List.mem_singleton.mp hr]
      exact h.state_cases
  -- The run finds `base`, or another run under way; one of the unfinished runs found `base` then.
  · intro _
    apply List.mem_append.mpr
    rcases h.state_cases with hstate | hrunning
    · exact .inr (List.mem_singleton.mpr hstate.symm)
    · exact .inl (h.running hrunning)

/-- A run that ends gives back what it remembers, and one that remembers `base` is left while the
job is running. -/
theorem GivesBack.endRun (hbase : base ≠ .running) (h : GivesBack base c) (place : Nat) :
    GivesBack base (c.step (.endRun place)) := by
  cases hfound : c.unfinished[place]? with
  | none => simpa only [step, hfound] using h
  | some remembered =>
    have hcases := h.remembered remembered (List.mem_of_getElem? hfound)
    simp only [step, hfound]
    refine ⟨?_, ?_, ?_⟩
    · show JobState.endRun remembered c.state = base ∨ JobState.endRun remembered c.state = .running
      unfold JobState.endRun
      split
      · exact hcases
      · exact h.state_cases
    · intro r hr
      exact h.remembered r (List.mem_of_mem_eraseIdx hr)
    -- The job is still running only if the run remembers another one, so the run that remembers `base`
    -- is not the one that ended.
    · intro hrunning
      change JobState.endRun remembered c.state = .running at hrunning
      unfold JobState.endRun at hrunning
      split at hrunning
      · rename_i hstate
        obtain ⟨k, hk⟩ := List.mem_iff_getElem?.mp (h.running hstate)
        refine List.mem_eraseIdx_iff_getElem?.mpr ⟨k, ?_, hk⟩
        rintro rfl
        rw [hfound, hrunning, Option.some.injEq] at hk
        exact hbase hk.symm
      · contradiction

/-- **Every step of a run keeps the state that is given back.** -/
theorem GivesBack.runStep (hbase : base ≠ .running) (h : GivesBack base c) {move : Move} (hmove : move.IsRun) :
    GivesBack base (c.step move) := by
  cases move with
  | start => exact hmove.elim
  | stop => exact hmove.elim
  | beginRun => exact h.beginRun
  | endRun place => exact h.endRun hbase place

theorem GivesBack.state_eq (h : GivesBack base c) (hquiet : c.unfinished = []) : c.state = base := by
  rcases h.state_cases with hstate | hrunning
  · exact hstate
  · have hmem := h.running hrunning
    rw [hquiet] at hmem
    cases hmem

/-! ## Stopping -/

/-- The scheduler is stopped, and so is the job. -/
def IsStopped (c : Overlap) : Prop := c.phase = .stopped ∧ c.state = .stopped

/-- A run that ends leaves a job alone that was stopped meanwhile. -/
theorem IsStopped.after (h : c.IsStopped) {moves : List Move} (hmoves : ∀ move ∈ moves, move ≠ .beginRun) :
    (c.after moves).IsStopped := by
  induction moves generalizing c with
  | nil => exact h
  | cons move rest ih =>
    obtain ⟨hmove, hrest⟩ := List.forall_mem_cons.mp hmoves
    refine ih ?_ hrest
    obtain ⟨hphase, hstate⟩ := h
    cases move with
    -- Only an idle scheduler can be started.
    | start => simp [step, IsStopped, hphase, hstate]
    | stop => exact ⟨rfl, rfl⟩
    | beginRun => exact absurd rfl hmove
    | endRun place =>
      refine ⟨(phase_endRun c place).trans hphase, ?_⟩
      -- The job is not `running`, so nothing is given back.
      cases hfound : c.unfinished[place]? <;> simp [step, hfound, JobState.endRun, hstate]

/-- Once every unfinished run found the job stopped, it is given back stopped, whatever follows. -/
theorem GivesBack.after_stop (hphase : c.phase = .stopped) (h : GivesBack .stopped c) (moves : List Move) :
    GivesBack .stopped (c.after moves) := by
  induction moves generalizing c with
  | nil => exact h
  | cons move rest ih =>
    cases move with
    -- A start finds a scheduler that is not idle, and a stop sets the state that is given back
    -- anyway.
    | start => exact ih (by simp [step, hphase]) (by simpa [step, hphase] using h)
    | stop => exact ih rfl ⟨.inl rfl, h.remembered, by simp [step]⟩
    | beginRun => exact ih hphase h.beginRun
    | endRun place => exact ih ((phase_endRun c place).trans hphase) (h.endRun (by decide) place)

/-- **A stop is for good once the runs that it found have ended**: if no run begins before that, the job is
stopped whenever no run is unfinished. -/
theorem stopped_of_quiet {before drained later : List Move} (hdrained : ∀ move ∈ drained, move ≠ .beginRun)
    (hended : (initial.after (before ++ .stop :: drained)).unfinished = [])
    (hquiet : (initial.after (before ++ .stop :: drained ++ later)).unfinished = []) :
    (initial.after (before ++ .stop :: drained ++ later)).state = .stopped := by
  have hstopped : (initial.after (before ++ .stop :: drained)).IsStopped := by
    have hstop : ((initial.after before).step .stop).IsStopped := ⟨rfl, rfl⟩
    rw [after_append]
    exact hstop.after hdrained
  -- After the last of these runs nothing is remembered but what later runs find.
  have hback := givesBack_of_quiet hstopped.2 (by decide) hended
  rw [after_append] at hquiet ⊢
  exact (hback.after_stop hstopped.1 later).state_eq hquiet

/-- **A stop is not for good while runs overlap.** The first run begins in a scheduled job and the second
after the stop; when the first ends, it takes the job for running on its own account and gives back what it
found. -/
theorem stop_undone_by_overlap :
    ¬ ∀ before later : List Move, (initial.after (before ++ .stop :: later)).unfinished = [] →
      (initial.after (before ++ .stop :: later)).state = .stopped := by
  intro hall
  have hlast := hall [.start, .beginRun] [.beginRun, .endRun 0, .endRun 0] (by decide)
  revert hlast
  decide

end Overlap

end ServiceEngine
