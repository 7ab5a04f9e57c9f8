import ServiceEngine.Value.Basic

/-!
# Scopes

A scope is a stack of frames. Each frame binds names and may name a parent frame by its place in the
stack; a name is looked up in a frame, then in its parent, and so on. Frames are opened on top and
released from the top, so a place can be taken again by a later frame: a handle to a released frame
finds nothing until then, and the new frame afterwards.

A frame opened below a place that does not exist yet can become its own ancestor. A lookup that goes
round in such a circle, because no frame of it binds the name, has no end.
-/

namespace ServiceEngine

/-- The place of a frame in the stack. -/
structure FrameId where
  index : Nat
  deriving DecidableEq, Repr

/-- The names bound by a block, and the frame around it. -/
structure Frame where
  vars : Fields Value
  parent : Option FrameId
  deriving Inhabited

/-- A stack of frames, the oldest first. -/
structure Scope where
  frames : List Frame
  deriving Inhabited

namespace Scope

/-- A stack of one frame that binds `vars`. Mirrors `Scope::with_bindings`. -/
def ofVars (vars : Fields Value) : Scope := ⟨[⟨vars, none⟩]⟩

def root : FrameId := ⟨0⟩

def depth (s : Scope) : Nat := s.frames.length

def frame? (s : Scope) (place : FrameId) : Option Frame := s.frames[place.index]?

/-- Open a frame inside another one. Mirrors `Scope::child`. -/
def child (s : Scope) (parent : FrameId) : FrameId × Scope :=
  (⟨s.depth⟩, ⟨s.frames ++ [⟨[], some parent⟩]⟩)

/-- Drop a frame and all later ones; the oldest frame stays. Mirrors `Scope::release`. -/
def release (s : Scope) (place : FrameId) : Scope :=
  if place.index = 0 then s else ⟨s.frames.take place.index⟩

/-- What a walk does at a place: it stops, with the frame that it has found if any, or goes on to the
parent. -/
inductive Visit where
  | stop (owner : Option FrameId)
  | goOn (parent : FrameId)
  deriving DecidableEq, Repr

/-- Look for `name` in the frame at a place. Where no frame is, and where there is no parent, the
walk has come to its end. -/
def visit (s : Scope) (name : String) (place : FrameId) : Visit :=
  match s.frame? place with
  | none => .stop none
  | some frame =>
    if frame.vars.contains name then .stop (some place)
    else match frame.parent with
      | none => .stop none
      | some parent => .goOn parent

/-- The nearest frame that binds `name`, from a place on. The search goes on from the parent
whether or not it has been there before, so a walk that comes back to a frame has no end. Mirrors
the loop of `Scope::owner`. -/
def seek (s : Scope) (name : String) (place : FrameId) : Option FrameId :=
  match s.visit name place with
  | .stop owner => owner
  | .goOn parent => s |>.seek name parent
partial_fixpoint

def owner? (s : Scope) (place : FrameId) (name : String) : Option FrameId := s.seek name place

/-- The value of `name`. Mirrors `Scope::get`. -/
def get? (s : Scope) (place : FrameId) (name : String) : Option Value :=
  (s.owner? place name).bind (fun owner => (s.frame? owner).bind (fun frame => frame.vars.get? name))

def contains (s : Scope) (place : FrameId) (name : String) : Bool := (s.owner? place name).isSome

/-- Bind `name` in the frame at a place, if there is one. -/
def put (s : Scope) (place : FrameId) (name : String) (value : Value) : Scope :=
  ⟨s.frames.modify place.index (fun frame => { frame with vars := frame.vars.insert name value })⟩

/-- Bind `name` in a frame; there is no result if the frame does not exist. Mirrors `Scope::set`,
which stops the program there. -/
def set? (s : Scope) (place : FrameId) (name : String) (value : Value) : Option Scope :=
  if place.index < s.depth then some (s.put place name value) else none

/-- Give `name` another value where it is bound. Mirrors `Scope::assign`. -/
def assign? (s : Scope) (place : FrameId) (name : String) (value : Value) : Option Scope :=
  (s.owner? place name).map (fun owner => s.put owner name value)

end Scope

end ServiceEngine
