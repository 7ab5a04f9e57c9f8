/-!
# Instants

An instant is a number of nanoseconds since the start of 1970. The instants that exist run from the
start of the year -262143 to the last nanosecond of the year 262142.
-/

namespace ServiceEngine

/-- A point in time, in nanoseconds since the start of 1970. -/
structure Instant where
  nanos : Int
  deriving DecidableEq, Repr

namespace Instant

def perSecond : Int := 1000000000

def perMinute : Int := 60 * perSecond

def perDay : Int := 1440 * perMinute

instance : LT Instant := ⟨fun a b => a.nanos < b.nanos⟩
instance : LE Instant := ⟨fun a b => a.nanos ≤ b.nanos⟩
instance (a b : Instant) : Decidable (a < b) := inferInstanceAs (Decidable (a.nanos < b.nanos))
instance (a b : Instant) : Decidable (a ≤ b) := inferInstanceAs (Decidable (a.nanos ≤ b.nanos))

/-- The instant of a number of seconds and nanoseconds. -/
def ofSeconds (seconds : Int) (nanos : Nat) : Instant := ⟨seconds * perSecond + nanos⟩

def ofMillis (millis : Int) : Instant := ⟨millis * 1000000⟩

/-- The whole seconds before an instant. -/
def seconds (t : Instant) : Int := t.nanos / perSecond

/-- The nanoseconds after the whole seconds. -/
def subsecond (t : Instant) : Nat := (t.nanos % perSecond).toNat

/-- The number of the day of an instant. -/
def day (t : Instant) : Int := t.nanos / perDay

/-- The first instant that exists. -/
def first : Instant := ofSeconds (-8334601228800) 0

/-- The last instant that exists. -/
def last : Instant := ofSeconds 8210266876799 999999999

/-- The instant `nanos` nanoseconds later, if it exists. -/
def after? (t : Instant) (nanos : Int) : Option Instant :=
  let later : Instant := ⟨t.nanos + nanos⟩
  if first ≤ later ∧ later ≤ last then some later else none

end Instant

end ServiceEngine
