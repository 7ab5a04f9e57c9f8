import Mathlib
import ServiceEngine.Exec.Run

/-!
# Stepping through a body

A host can run a body as a whole (`Machine.runBody`) or statement by statement (`Machine.step`), looking at
the machine in between. `Machine.stepAll` is the second way, carried on until a statement ends the body or
fails.

1. A statement that fails says the same wherever it stands; only the first index of its path is the place in
   the block (`Trouble.locate_eq`).
2. So the two ways go through the same machines, one statement after the other (`Machine.runFrom_eq`).
3. Either way nothing is run after the first statement that ends the body or fails
   (`Machine.stepFrom_append`).
-/

namespace ServiceEngine

/-! ## Places of a failure -/

/-- The failure, with another index in its outermost block. -/
def Failure.moveTo (index : Nat) (failure : Failure) : Failure :=
  { failure with path := index :: failure.path.tail }

namespace Trouble

/-- The path of a failure inside the statement. -/
def innerPath : Trouble → List Nat
  | .here _ => []
  | .inside failure => failure.path

theorem path_locate (index : Nat) (statement : Stmt) (trouble : Trouble) :
    (trouble.locate index statement).path = index :: trouble.innerPath := by
  cases trouble <;> rfl

/-- The place in the block is all that a failure owes to it. -/
theorem locate_eq (index other : Nat) (statement : Stmt) (trouble : Trouble) :
    trouble.locate index statement = (trouble.locate other statement).moveTo index := by
  cases trouble <;> rfl

end Trouble

/-- The value of a body that ends in this way. -/
def Flow.value : Flow → Value
  | .next => .null
  | .done v => v

namespace Machine

/-! ## One statement after the other -/

/-- Run statements one by one, the first of them counted as `index`, until one ends the body or fails. A
failure comes with the number of its statement. -/
def stepFrom (index : Nat) : List Stmt → Machine → Except (Nat × Failure) Flow × Machine
  | [], m => (.ok .next, m)
  | statement :: rest, m =>
    match m.step statement with
    | (.ok .next, m) => stepFrom (index + 1) rest m
    | (.ok (.done v), m) => (.ok (.done v), m)
    | (.error failure, m) => (.error (index, failure), m)

/-- Run the statements of a body one by one. -/
def stepAll (m : Machine) (body : List Stmt) : Except (Nat × Failure) Flow × Machine := stepFrom 0 body m

/-- A statement that ends well says the same alone. -/
theorem step_of_ok {m after : Machine} {statement : Stmt} {flow : Flow}
    (h : statement.run Scope.root m = (.ok flow, after)) : m.step statement = (.ok flow, after) := by
  rw [step, h]

/-- A statement that fails alone is located at place 0. -/
theorem step_of_error {m after : Machine} {statement : Stmt} {trouble : Trouble}
    (h : statement.run Scope.root m = (.error trouble, after)) :
    m.step statement = (.error (trouble.locate 0 statement), after) := by
  rw [step, h]

/-- **A block is stepped through as it is run**: the same statements, the same machines, and a failure that
says where its statement stands in the block. -/
theorem runFrom_eq (index : Nat) (body : List Stmt) (m : Machine) :
    Stmt.runFrom Scope.root index body m =
      ((stepFrom index body m).1.mapError (fun failed => failed.2.moveTo failed.1),
        (stepFrom index body m).2) := by
  -- By induction on the statements that are left; the place in the block and the machine change
  -- with each step.
  induction body generalizing index m with
  | nil => rfl
  | cons statement rest ih =>
    rw [Stmt.runFrom, stepFrom]
    rcases hrun : statement.run Scope.root m with ⟨trouble | (- | v), after⟩
    -- A failure here: the two ways differ only in the place.
    · rw [step_of_error hrun]
      simp only [Except.mapError, ← Trouble.locate_eq]
    · rw [step_of_ok hrun]
      exact ih (index + 1) after
    · rw [step_of_ok hrun]
      rfl

/-- A failure on the way is the failure of a single statement, with 0 as its first index. -/
theorem path_of_stepFrom {index number : Nat} {body : List Stmt} {m : Machine} {failure : Failure}
    (h : (stepFrom index body m).1 = .error (number, failure)) : ∃ path, failure.path = 0 :: path := by
  induction body generalizing index m with
  -- No statement, no failure.
  | nil => cases h
  | cons statement rest ih =>
    rw [stepFrom] at h
    rcases hrun : statement.run Scope.root m with ⟨trouble | (- | v), after⟩
    · rw [step_of_error hrun] at h
      obtain ⟨-, rfl⟩ := Prod.mk.inj (Except.error.inj h)
      exact ⟨_, trouble.path_locate 0 statement⟩
    -- The statement passes, so the failure comes later.
    · rw [step_of_ok hrun] at h
      exact ih h
    · rw [step_of_ok hrun] at h
      cases h

/-- Steps behind a body are taken only if the body has run to its end. -/
theorem stepFrom_append {index : Nat} {body : List Stmt} {m : Machine} (more : List Stmt)
    (h : (stepFrom index body m).1 ≠ .ok .next) :
    stepFrom index (body ++ more) m = stepFrom index body m := by
  induction body generalizing index m with
  -- All statements have passed, which was excluded.
  | nil => exact absurd rfl h
  | cons statement rest ih =>
    rw [List.cons_append, stepFrom, stepFrom]
    rw [stepFrom] at h
    rcases hstep : m.step statement with ⟨failure | (- | v), after⟩
    -- A failure ends both runs, and so does a value; only a statement that passes lets them go
    -- on.
    · rfl
    · rw [hstep] at h
      exact ih h
    · rfl

/-! ## Bodies -/

/-- A body has the value that stepping through it gives, and the failure at its place. -/
theorem runBody_eq (m : Machine) (body : List Stmt) :
    m.runBody body =
      (((m.stepAll body).1.mapError (fun failed => failed.2.moveTo failed.1)).map Flow.value,
        (m.stepAll body).2) := by
  rw [runBody, runBlock, runFrom_eq, stepAll]
  rcases stepFrom 0 body m with ⟨failed | (- | v), after⟩ <;> rfl

/-- **Stepping equals running.** For every machine and every body, stepping through the statements until one
ends the body or fails leaves the machine that running the body leaves: scope, store, journal, log and clock.
The body has the value `v` just if a step ends it with `v`, or all steps are taken and `v` is null. It fails
just if a step fails, by the same failure, except that the first index of the path is 0 for the step and the
place of the statement for the body. What stands behind the first statement that ends the body or fails is
not run, either way. -/
theorem stepping_equals_running (m : Machine) (body : List Stmt) :
    (m.runBody body).2 = (m.stepAll body).2 ∧
      (∀ v, (m.runBody body).1 = .ok v ↔
        (m.stepAll body).1 = .ok (.done v) ∨ (m.stepAll body).1 = .ok .next ∧ v = .null) ∧
      (∀ failure, (m.runBody body).1 = .error failure ↔
        ∃ index path alone, (m.stepAll body).1 = .error (index, alone) ∧ alone.path = 0 :: path ∧
          failure = { alone with path := index :: path }) ∧
      ∀ more, (m.stepAll body).1 ≠ .ok .next →
        m.stepAll (body ++ more) = m.stepAll body ∧ m.runBody (body ++ more) = m.runBody body := by
  have hrun := m.runBody_eq body
  refine ⟨congrArg Prod.snd hrun, ?_, ?_, ?_⟩
  · intro v
    rw [hrun]
    -- The three ways in which stepping can end decide the value: a failure, all steps taken, a
    -- step with a value.
    rcases (m.stepAll body).1 with failed | (- | w)
    · simp [Except.mapError, Except.map]
    · simp [Except.mapError, Except.map, Flow.value, eq_comm]
    · simp [Except.mapError, Except.map, Flow.value]
  · intro failure
    rw [hrun]
    constructor
    · intro h
      rcases hstepped : (m.stepAll body).1 with ⟨index, alone⟩ | flow
      -- The step's own path starts with 0, which moving replaces by the place of the statement.
      · obtain ⟨path, hpath⟩ := path_of_stepFrom hstepped
        rw [hstepped] at h
        obtain rfl := Except.error.inj h
        refine ⟨index, path, alone, rfl, hpath, ?_⟩
        simp only [Failure.moveTo, hpath, List.tail_cons]
      · rw [hstepped] at h
        cases h
    · rintro ⟨index, path, alone, hstepped, hpath, rfl⟩
      rw [hstepped]
      simp [Except.mapError, Except.map, Failure.moveTo, hpath]
  · intro more hended
    -- No step is taken behind the end, so the longer body is stepped through alike, and run
    -- alike.
    have hsame : m.stepAll (body ++ more) = m.stepAll body := stepFrom_append more hended
    refine ⟨hsame, ?_⟩
    rw [runBody_eq, hsame, ← hrun]

/-- The second statement fails, by the first statement of its block. -/
example :
    let body : List Stmt := [.letBind "x" (.identifier "db"),
      .branch (.identifier "x") [.assign "y" (.identifier "x")] none, .ret none]
    let m := start [] default
    (m.runBody body).1 = .error ⟨[1, 0], "assign y", .unbound "y"⟩ ∧
      (m.stepAll body).1 = .error (1, ⟨[0, 0], "assign y", .unbound "y"⟩) := by
  intro body m
  exact ⟨by cbv, by cbv⟩

end Machine

end ServiceEngine
