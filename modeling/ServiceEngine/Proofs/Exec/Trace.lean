import Mathlib
import ServiceEngine.Proofs.Exec.Acts

/-!
# The moments of a run

`Stmt.traceFrom` lists the statements that a block comes to run, in order: each with its path in the
block, its frame and the machine it meets. Statements inside a statement follow it, once for each pass
of a loop.

As with runs, the moments inside a statement are those of its act on the value of its expression
(`Stmt.trace_eq`), and the passes of a loop are a walk over its items (`Machine.traceItems`).
-/

namespace ServiceEngine

/-- A statement is about to run: where it stands, in which frame, and the machine it meets. -/
structure Moment where
  path : List Nat
  place : FrameId
  statement : Stmt
  machine : Machine

/-- A moment inside the statement at `index`. -/
def Moment.within (index : Nat) (moment : Moment) : Moment :=
  { moment with path := index :: moment.path }

/-- What `trace` lists along a walk over items, for every pass until one ends the body or fails. -/
def Machine.traceItems {α : Type} (step : Value → Machine → Except Failure Flow × Machine)
    (trace : Value → Machine → List α) : List Value → Machine → List α
  | [], _ => []
  | item :: rest, m =>
    trace item m ++
      match step item m with
      | (.ok .next, m) => Machine.traceItems step trace rest m
      | _ => []

/-- What holds of every pass from a machine with the invariant `I` holds along the whole walk. -/
theorem Machine.forall_mem_traceItems {α : Type} {I : Machine → Prop} {P : α → Prop}
    {step : Value → Machine → Except Failure Flow × Machine} {trace : Value → Machine → List α}
    (hstep : ∀ v m, I m → I (step v m).2) (htrace : ∀ v m, I m → ∀ x ∈ trace v m, P x)
    (items : List Value) {m : Machine} (hm : I m) : ∀ x ∈ Machine.traceItems step trace items m, P x := by
  induction items generalizing m with
  | nil => exact nofun
  | cons item rest ih =>
    have hitem := hstep item m hm
    rw [Machine.traceItems]
    refine List.forall_mem_append.mpr ⟨htrace item m hm, ?_⟩
    generalize step item m = result at hitem ⊢
    -- Only a pass after which the loop goes on lets the walk come to the next item.
    obtain ⟨failure | (- | v), m'⟩ := result
    · exact nofun
    · exact ih hitem
    · exact nofun

mutual

/-- The moments inside a statement. -/
def Stmt.trace (place : FrameId) : Stmt → Machine → List Moment
  | .letBind _ _, _ => []
  | .assign _ _, _ => []
  | .ret _, _ => []
  | .branch condition thenBody none, m =>
    match m.eval place condition with
    | (.ok v, m) => if v.isTruthy then Stmt.traceFrom m.scope.top 0 thenBody (m.opened place) else []
    | (.error _, _) => []
  | .branch condition thenBody (some elseBody), m =>
    match m.eval place condition with
    | (.ok v, m) =>
      if v.isTruthy then Stmt.traceFrom m.scope.top 0 thenBody (m.opened place)
      else Stmt.traceFrom m.scope.top 0 elseBody (m.opened place)
    | (.error _, _) => []
  | .forEach item collection body, m =>
    match m.eval place collection with
    | (.ok (.list items), m) =>
      Machine.traceItems (Stmt.pass place item body)
        (fun v m => Stmt.traceFrom m.scope.top 0 body ((m.opened place).bind m.scope.top item v))
        items m
    | _ => []
  | .expression _, _ => []

/-- The moments of a block whose first statement stands at place `index`. -/
def Stmt.traceFrom (place : FrameId) (index : Nat) : List Stmt → Machine → List Moment
  | [], _ => []
  | statement :: rest, m =>
    ⟨[index], place, statement, m⟩ :: ((Stmt.trace place statement m).map (Moment.within index) ++
      match Stmt.run place statement m with
      | (.ok .next, m) => Stmt.traceFrom place (index + 1) rest m
      | _ => [])

end

/-- The moments of an act: those of the blocks that it runs. -/
def Act.trace (place : FrameId) : Act → Machine → List Moment
  | .block body, m => Stmt.traceFrom m.scope.top 0 body (m.opened place)
  | .loop item items body, m =>
    Machine.traceItems (Stmt.pass place item body)
      (fun v m => Stmt.traceFrom m.scope.top 0 body ((m.opened place).bind m.scope.top item v)) items m
  | _, _ => []

namespace Stmt

/-- The moments inside a statement are those of its act on the value; a statement that fails
first has none. -/
theorem trace_eq (place : FrameId) (s : Stmt) (m : Machine) :
    Stmt.trace place s m =
      match s.own place m with
      | (.ok v, m) => (s.act v).trace place m
      | (.error _, _) => [] := by
  -- The cases are those of the trace: only conditions and loops run blocks.
  cases s with
  | ret value =>
    cases value with
    | none => rw [Stmt.trace]; rfl
    | some value =>
      rw [Stmt.trace]
      simp only [own, ownExpr?]
      rcases m.eval place value with ⟨_ | v, m'⟩ <;> rfl
  | branch condition thenBody elseBody =>
    cases elseBody <;> rw [Stmt.trace]
    all_goals
      simp only [own, ownExpr?, act]
      rcases m.eval place condition with ⟨_ | v, m'⟩
      · rfl
      · by_cases h : v.isTruthy = true <;> simp [h, Act.trace]
  | forEach item collection body =>
    rw [Stmt.trace]
    simp only [own, ownExpr?]
    rcases m.eval place collection with ⟨_ | v, m'⟩
    · rfl
    · cases v <;> rfl
  | _ =>
    rw [Stmt.trace]
    simp only [own, ownExpr?]
    split <;> rfl

variable {place : FrameId} {s : Stmt} {m after : Machine} {v : Value} {fault : Fault}

/-- Where the expression fails, no block is run. -/
theorem trace_of_fault (h : s.own place m = (.error fault, after)) : Stmt.trace place s m = [] := by
  rw [trace_eq, h]

theorem trace_of_value (h : s.own place m = (.ok v, after)) :
    Stmt.trace place s m = (s.act v).trace place after := by
  rw [trace_eq, h]

end Stmt

end ServiceEngine
