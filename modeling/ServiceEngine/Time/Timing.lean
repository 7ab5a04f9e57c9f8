import ServiceEngine.Time.Cron
import ServiceEngine.Time.Span

/-!
# When jobs run

A timing is a cron pattern, a fixed interval or a time of the day. Intervals and times of the day are
written as cadences: `hourly`, `daily`, `every minute`, `every 5 minutes`, `every day at 09:30`.
A delay is a span, or a bare number of seconds.
-/

namespace ServiceEngine

/-- Why a schedule cannot be read. Mirrors `ScheduleError`. -/
inductive ScheduleError where
  | cron (pattern : String) (why : CronError)
  | cadence (text : String)
  | delay (text : String)
  deriving DecidableEq, Repr

def ScheduleError.message : ScheduleError → String
  | .cron pattern why => "invalid cron pattern '" ++ pattern ++ "': " ++ why.message
  | .cadence text => "invalid cadence '" ++ text ++ "'"
  | .delay text => "invalid delay '" ++ text ++ "'"

structure TimeOfDay where
  hour : Nat
  minute : Nat
  deriving DecidableEq, Repr

/-- When a job runs. Mirrors `Timing`. -/
inductive Timing where
  | cron (schedule : Cron)
  | interval (length : Span)
  | dailyAt (time : TimeOfDay)
  deriving DecidableEq, Repr

/-! ## Reading -/

/-- A number of one or two digits, at most `high`. -/
def TimeOfDay.part? (high : Nat) (cs : List Char) : Option Nat :=
  if cs.length ≤ 2 then (Decimal.natural? cs).filter (· ≤ high) else none

/-- The time of the day that a text such as `9:30` gives. -/
def TimeOfDay.parse? (cs : List Char) : Option TimeOfDay := do
  let (hour, minute) ← Text.cut? ':' cs
  return ⟨← part? 23 hour, ← part? 59 minute⟩

/-- The instant at which a time of the day comes on a day. -/
def TimeOfDay.on (time : TimeOfDay) (day : Int) : Instant :=
  Cron.instantOf day (60 * time.hour + time.minute)

namespace Timing

/-- Whether a word can be a unit of a cadence. Mirrors `is_unit`. -/
def isUnitWord (word : List Char) : Bool := word.all Char.isAlpha

/-- The span of `count` units. -/
def units? (count : Nat) (unit : List Char) : Option Span :=
  Span.bounded? (Decimal.digitsOf count ++ ' ' :: unit)

/-- The timing that the words of a cadence give. Mirrors the cases of `parse_cadence`. -/
def ofWords? : List String → Option Timing
  | ["hourly"] => some (.interval ⟨3600, 0⟩)
  | ["daily"] => some (.interval ⟨86400, 0⟩)
  | ["every", "day", "at", time] => (TimeOfDay.parse? time.toList).map .dailyAt
  | ["every", unit] =>
    if isUnitWord unit.toList then (units? 1 unit.toList).map .interval else none
  | ["every", count, unit] =>
    if isUnitWord unit.toList then do
      let n ← Decimal.unsigned? Span.wordSize count.toList
      if n = 0 then none else (units? n unit.toList).map .interval
    else none
  | _ => none

/-- The timing of a cadence, in any letter case. Mirrors `Timing::cadence`. -/
def ofCadence (text : String) : Except ScheduleError Timing :=
  match ofWords? ((Text.words (Text.lower text.toList)).map String.ofList) with
  | some timing => .ok timing
  | none => .error (.cadence text)

/-- The timing of a cron pattern. Mirrors `Timing::cron`. -/
def ofCron (pattern : String) : Except ScheduleError Timing :=
  match Cron.parse pattern.toList with
  | .ok schedule => .ok (.cron schedule)
  | .error why => .error (.cron pattern why)

/-! ## Fire times -/

/-- The first fire time after an instant, if one exists. Mirrors `Timing::next_after`. -/
def next? (timing : Timing) (t : Instant) : Option Instant :=
  match timing with
  | .cron schedule => schedule.next? t
  | .interval length => t.after? length.total
  | .dailyAt time =>
    let today := time.on t.day
    if t < today then some today else today.after? Instant.perDay

end Timing

/-! ## Delays -/

/-- The longest delay that is given as a bare number, in seconds. -/
def Span.longestBare : Nat := 9223372036854775807 / 1000

/-- The span of a delay, in any letter case: a bare number of seconds, or a span. Mirrors
`parse_delay`. -/
def Span.ofDelay? (text : List Char) : Option Span :=
  let text := Text.lower (Text.trim text)
  match Decimal.unsigned? Span.wordSize text with
  | some seconds => if seconds ≤ Span.longestBare then some ⟨seconds, 0⟩ else none
  | none => Span.bounded? text

/-- The span of a delay. -/
def Span.ofDelay (text : String) : Except ScheduleError Span :=
  match Span.ofDelay? text.toList with
  | some span => .ok span
  | none => .error (.delay text)

end ServiceEngine
