import ServiceEngine.Decimal.Natural
import ServiceEngine.Text.Blank

/-!
# Spans of time

A span is written as numbers with units, such as `1h 30m` or `2.5 seconds`. White space is skipped
before a number, between its digits and before its unit; the unit ends at white space, at the next
digit or at the end of the text.

All arithmetic is in words of 64 bits and fails beyond them. A fraction of a unit must come to whole
nanoseconds, and for units of an hour and more to whole seconds.
-/

namespace ServiceEngine

/-- A length of time: seconds, and nanoseconds below one second. -/
structure Span where
  seconds : Nat
  nanos : Nat
  deriving DecidableEq, Repr

namespace Span

/-- The bound of the numbers in spans. -/
def wordSize : Nat := UInt64.size

def perSecond : Nat := 1000000000

def zero : Span := ⟨0, 0⟩

/-- The whole length in nanoseconds. -/
def total (s : Span) : Nat := s.seconds * perSecond + s.nanos

/-- A number, if it is a word. -/
def word? (n : Nat) : Option Nat := if n < wordSize then some n else none

def add? (s : Span) (seconds nanos : Nat) : Option Span := do
  let nanos ← word? (s.nanos + nanos)
  let seconds ← word? (s.seconds + seconds + nanos / perSecond)
  return ⟨seconds, nanos % perSecond⟩

/-! ## Units -/

/-- A unit: its length, and whether lengths below one of it count in nanoseconds. -/
inductive Unit where
  /-- Counted in nanoseconds, with this many of them; fractions are not allowed. -/
  | atom
  /-- Counted in nanoseconds, with this many of them. -/
  | short (nanos : Nat)
  /-- Counted in seconds, with this many of them; fractions count in nanoseconds. -/
  | medium (seconds : Nat)
  /-- Counted in seconds, with this many of them; fractions too. -/
  | long (seconds : Nat)
  deriving DecidableEq, Repr

/-- The unit of a word. -/
def Unit.ofWord? : String → Option Unit
  | "nanos" | "nsec" | "ns" => some .atom
  | "usec" | "us" | "µs" => some (.short 1000)
  | "millis" | "msec" | "ms" => some (.short 1000000)
  | "seconds" | "second" | "secs" | "sec" | "s" => some (.medium 1)
  | "minutes" | "minute" | "min" | "mins" | "m" => some (.medium 60)
  | "hours" | "hour" | "hr" | "hrs" | "h" => some (.long 3600)
  | "days" | "day" | "d" => some (.long 86400)
  | "weeks" | "week" | "wk" | "wks" | "w" => some (.long 604800)
  | "months" | "month" => some (.long 2630016)
  | "years" | "year" | "yr" | "yrs" | "y" => some (.long 31557600)
  | _ => none

/-- Add `n` units. -/
def addWhole? (s : Span) (n : Nat) : Unit → Option Span
  | .atom => s.add? 0 n
  | .short nanos => do s.add? 0 (← word? (n * nanos))
  | .medium seconds => do s.add? (← word? (n * seconds)) 0
  | .long seconds => do s.add? (← word? (n * seconds)) 0

/-- The quotient, if there is no remainder. -/
def exactly? (n d : Nat) : Option Nat := if n % d = 0 then some (n / d) else none

/-- A fraction of a unit: digits behind the point, and how many of them. -/
structure Fraction where
  digits : Nat
  places : Nat
  deriving DecidableEq, Repr

def addFraction? (s : Span) (f : Fraction) : Unit → Option Span
  | .atom => none
  | .short nanos => do s.add? 0 (← exactly? (← word? (f.digits * nanos)) (Nat.pow 10 f.places))
  | .medium seconds => do
    s.add? 0 (← exactly? (← word? (f.digits * (seconds * perSecond))) (Nat.pow 10 f.places))
  | .long seconds => do s.add? (← exactly? (← word? (f.digits * seconds)) (Nat.pow 10 f.places)) 0

/-! ## Texts -/

/-- Where the reading of a span stands. -/
inductive Reading where
  /-- Before a number; a span was read already, or not. -/
  | start (read : Option Span)
  /-- In the digits before the point. -/
  | number (read : Span) (n : Nat)
  /-- In the digits behind the point. -/
  | fraction (read : Span) (n : Nat) (f : Fraction)
  /-- In the unit, whose letters are kept last first. -/
  | unit (read : Span) (n : Nat) (f : Option Fraction) (letters : List Char)

/-- Whether `c` can stand in a unit. -/
def isLetter (c : Char) : Bool := ('a' ≤ c && c ≤ 'z') || ('A' ≤ c && c ≤ 'Z') || c = 'µ'

/-- Add a number with its unit. -/
def close? (read : Span) (n : Nat) (f : Option Fraction) (letters : List Char) : Option Span := do
  let unit ← Unit.ofWord? (String.ofList letters.reverse)
  let read ← read.addWhole? n unit
  match f with
  | some f => read.addFraction? f unit
  | none => return read

def Reading.step (state : Reading) (c : Char) : Option Reading :=
  match state with
  | .start read =>
    if c.isDigit then some (.number (read.getD zero) (Decimal.digitValue c))
    else if Text.isBlank c then some state
    else none
  | .number read n =>
    if c.isDigit then (word? (10 * n + Decimal.digitValue c)).map (.number read)
    else if Text.isBlank c then some state
    else if isLetter c then some (.unit read n none [c])
    else if c = '.' then some (.fraction read n ⟨0, 0⟩)
    else none
  | .fraction read n f =>
    if c.isDigit then
      (word? (Nat.pow 10 (f.places + 1))).map (fun _ =>
        .fraction read n ⟨10 * f.digits + Decimal.digitValue c, f.places + 1⟩)
    else if Text.isBlank c then some state
    else if isLetter c ∧ f.places ≠ 0 then some (.unit read n (some f) [c])
    else none
  | .unit read n f letters =>
    if c.isDigit then
      (close? read n f letters).map (fun read => .number read (Decimal.digitValue c))
    else if Text.isBlank c then (close? read n f letters).map (fun read => .start (some read))
    else if isLetter c then some (.unit read n f (c :: letters))
    else none

/-- The span, if the text may end here. -/
def Reading.finish : Reading → Option Span
  | .start read => read
  | .number _ _ => none
  | .fraction _ _ _ => none
  | .unit read n f letters => close? read n f letters

/-- The span that a text spells. -/
def parse? (text : List Char) : Option Span :=
  (text.foldlM Reading.step (.start none)).bind Reading.finish

/-- The longest span that schedules use, in nanoseconds: the greatest signed word of milliseconds. -/
def longest : Nat := 9223372036854775807 * 1000000

/-- The span that a text spells, if schedules can use it. Mirrors `span`. -/
def bounded? (text : List Char) : Option Span := (parse? text).filter (fun s => s.total ≤ longest)

end Span

end ServiceEngine
