import ServiceEngine.Exec.Fault

/-!
# The world around a body

What a running body can reach besides its names: the store, the log and the clock. An `Action` may
read and change the world and may fail; what it did before it failed stays done.
-/

namespace ServiceEngine

/-- The store, the lines logged so far, and the time in milliseconds since 1970. Mirrors what a
body reaches through `RuntimeContext`. -/
structure World where
  store : Store
  log : Array String
  now : Int
  deriving Inhabited

namespace World

def heap (w : World) : Heap := w.store.heap

def logLine (w : World) (line : String) : World := { w with log := w.log.push line }

end World

/-- A computation that reads and changes the world and may fail. -/
abbrev Action (α : Type) := ExceptT Fault (StateM World) α

namespace Action

/-- Run an action: its answer, and the world after it. -/
def run {α : Type} (action : Action α) (w : World) : Except Fault α × World :=
  StateT.run (ExceptT.run action) w

def heap : Action Heap := do return (← get).heap

/-- A step that leaves the world alone when it fails. -/
def atomically {α : Type} (step : World → Except Fault (α × World)) : Action α := do
  match step (← get) with
  | .ok (a, w) =>
    set w
    return a
  | .error fault => throw fault

end Action

end ServiceEngine
