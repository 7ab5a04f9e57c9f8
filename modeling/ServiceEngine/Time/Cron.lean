import ServiceEngine.Decimal.Natural
import ServiceEngine.Text.Split
import ServiceEngine.Time.Calendar
import ServiceEngine.Time.Instant

/-!
# Cron patterns

A pattern has five fields: minute, hour, day of the month, month, day of the week. A field is a list
of parts, each a range of values with a step. A day fits if its month fits and its two day fields do:
a field that is just `*` does not restrict, and when both restrict, one of them suffices.

The next fire time is the first minute after a given instant whose day, hour and minute fit. It is
searched day by day over eight years, which reaches every 29th of February.
-/

namespace ServiceEngine

/-! ## Patterns -/

/-- What is wrong with a pattern. -/
inductive CronError where
  | fieldCount (given : Nat)
  | step (text : String)
  | zeroStep
  | notNumber (text : String)
  | outside (value low high : Nat)
  | reversed (first last : Nat)
  deriving DecidableEq, Repr

def CronError.message : CronError → String
  | .fieldCount given => "expected 5 fields, got " ++ toString given
  | .step text => "invalid step '" ++ text ++ "'"
  | .zeroStep => "step must be positive"
  | .notNumber text => "'" ++ text ++ "' is not a number"
  | .outside value low high =>
    toString value ++ " is outside " ++ toString low ++ "-" ++ toString high
  | .reversed first last => "range " ++ toString first ++ "-" ++ toString last ++ " is reversed"

namespace Cron

/-- The values of a field lie between these two. -/
structure Bounds where
  low : Nat
  high : Nat

/-- A part of a field: the values from `first` on, in steps, up to `last`. -/
structure Part where
  first : Nat
  last : Nat
  step : Nat
  deriving DecidableEq, Repr

/-- Whether a part has a value. -/
def Part.contains (p : Part) (v : Nat) : Bool :=
  p.first ≤ v && v ≤ p.last && (v - p.first) % p.step = 0

/-- The bound of the numbers in a pattern. -/
def wordSize : Nat := UInt32.size

/-- Read a value of a field. Mirrors `parse_value`. -/
def value (b : Bounds) (text : List Char) : Except CronError Nat :=
  match Decimal.unsigned? wordSize text with
  | none => .error (.notNumber (String.ofList text))
  | some v => if b.low ≤ v ∧ v ≤ b.high then .ok v else .error (.outside v b.low b.high)

def step (text : List Char) : Except CronError Nat :=
  match Decimal.unsigned? wordSize text with
  | none => .error (.step (String.ofList text))
  | some n => if n = 0 then .error .zeroStep else .ok n

/-- Read the range of a part: everything, from one value to another, or one value. A value with a
step greater than one stands for all values from there on. -/
def range (b : Bounds) (step : Nat) (text : List Char) : Except CronError Part :=
  if text = ['*'] then .ok ⟨b.low, b.high, step⟩
  else match Text.cut? '-' text with
    | some (first, last) => do
      let first ← value b first
      let last ← value b last
      if first ≤ last then return ⟨first, last, step⟩ else throw (.reversed first last)
    | none => do
      let v ← value b text
      return ⟨v, if 1 < step then b.high else v, step⟩

/-- Read a part. Mirrors the body of the loop in `parse_field`. -/
def part (b : Bounds) (text : List Char) : Except CronError Part :=
  match Text.cut? '/' text with
  | some (text, stepText) => do
    let n ← step stepText
    range b n text
  | none => range b 1 text

/-- Read a field: the parts between commas. Mirrors `parse_field`. -/
def field (b : Bounds) (text : List Char) : Except CronError (List Part) :=
  (Text.splitBy (· = ',') text).mapM (part b)

/-- The values of a field, in ascending order. -/
def values (b : Bounds) (parts : List Part) : List Nat :=
  (List.range (b.high + 1)).filter (fun v => parts.any (fun p => p.contains v))

def minuteBounds : Bounds := ⟨0, 59⟩

def hourBounds : Bounds := ⟨0, 23⟩

def dayBounds : Bounds := ⟨1, 31⟩

def monthBounds : Bounds := ⟨1, 12⟩

/-- The days of a week from Sunday on; 7 is Sunday again. -/
def weekdayBounds : Bounds := ⟨0, 7⟩

end Cron

/-- The values that fit, in ascending order, and whether the day fields restrict. Mirrors
`CronSchedule`. -/
structure Cron where
  minutes : List Nat
  hours : List Nat
  days : List Nat
  months : List Nat
  weekdays : List Nat
  anyDay : Bool
  anyWeekday : Bool
  deriving DecidableEq, Repr

namespace Cron

/-- The weekdays of a set in which Sunday may be 0 or 7. -/
def foldSunday (values : List Nat) : List Nat :=
  (List.range 7).filter (fun v => v ∈ values || (v = 0 && 7 ∈ values))

/-- Read a pattern. Mirrors `CronSchedule::parse`. -/
def parse (text : List Char) : Except CronError Cron :=
  match Text.words text with
  | [minute, hour, day, month, weekday] => do
    let minutes ← field minuteBounds minute
    let hours ← field hourBounds hour
    let days ← field dayBounds day
    let months ← field monthBounds month
    let weekdays ← field weekdayBounds weekday
    return {
      minutes := values minuteBounds minutes
      hours := values hourBounds hours
      days := values dayBounds days
      months := values monthBounds months
      weekdays := foldSunday (values weekdayBounds weekdays)
      anyDay := day = ['*']
      anyWeekday := weekday = ['*'] }
  | words => .error (.fieldCount words.length)

/-! ## Fire times -/

/-- Whether a day fits. Mirrors `CronSchedule::day_matches`. -/
def fitsDay (c : Cron) (day : Int) : Bool :=
  let date := Calendar.dateOf day
  let byDate := c.days.contains date.day
  let byWeekday := c.weekdays.contains (Calendar.weekdayOf day)
  c.months.contains date.month &&
    match c.anyDay, c.anyWeekday with
    | true, true => true
    | true, false => byWeekday
    | false, true => byDate
    | false, false => byDate || byWeekday

/-- The first minute of a day that fits, from the minute `start` of the day on. -/
def firstMinute? (c : Cron) (start : Nat) : Option Nat :=
  (c.hours.flatMap (fun hour => c.minutes.map (fun minute => 60 * hour + minute))).find? (start ≤ ·)

/-- The number of days that are searched. Mirrors `CRON_SEARCH_DAYS`. -/
def searchDays : Nat := 366 * 8

/-- The instant of a minute of a day. -/
def instantOf (day : Int) (minute : Nat) : Instant :=
  ⟨day * Instant.perDay + minute * Instant.perMinute⟩

/-- Search `count` days from `day` on, the first of them from the minute `start` on. Mirrors the
loop of `CronSchedule::next_after`. -/
def search (c : Cron) : Nat → Int → Nat → Option Instant
  | 0, _, _ => none
  | count + 1, day, start =>
    if Instant.last.day < day then none
    else match if c.fitsDay day then c.firstMinute? start else none with
      | some minute => some (instantOf day minute)
      -- Only the first day is searched from its middle on.
      | none => c.search count (day + 1) 0

/-- The first fire time after an instant. Mirrors `CronSchedule::next_after`. -/
def next? (c : Cron) (t : Instant) : Option Instant :=
  let minute := t.nanos / Instant.perMinute + 1
  c.search searchDays (minute / 1440) (minute % 1440).toNat

end Cron

end ServiceEngine
