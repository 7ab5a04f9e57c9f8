/-!
# The calendar

Days are numbered from 1970-01-01, which is day 0, in the Gregorian calendar extended to all years.
A year starts after 365 days for each year before it and one more for each leap year; the year of a
day is found from an estimate that is at most one year off, and month and day by counting off months.
-/

namespace ServiceEngine

structure Date where
  year : Int
  month : Nat
  day : Nat
  deriving DecidableEq, Repr

namespace Calendar

/-- Whether a year has a 29th of February. -/
def isLeap (year : Int) : Bool := year % 4 = 0 && (year % 100 ≠ 0 || year % 400 = 0)

/-- The number of the first day of a year. -/
def yearStart (year : Int) : Int :=
  365 * (year - 1970) + (year - 1) / 4 - (year - 1) / 100 + (year - 1) / 400 - 477

/-- The year that a day belongs to. -/
def yearOf (day : Int) : Int :=
  let guess := 1970 + 400 * day / 146097
  if day < yearStart guess then guess - 1
  else if yearStart (guess + 1) ≤ day then guess + 1
  else guess

def monthLengths (year : Int) : List Nat :=
  [31, if isLeap year then 29 else 28, 31, 30, 31, 30, 31, 31, 30, 31, 30, 31]

/-- Month and day of the month, counted from `month` on, of the day `offset` days later than the first
day of `month`. -/
def countOff (month : Nat) : List Nat → Nat → Nat × Nat
  | [], offset => (month, offset + 1)
  | length :: rest, offset =>
    if offset < length then (month, offset + 1) else countOff (month + 1) rest (offset - length)

def dateOf (day : Int) : Date :=
  let year := yearOf day
  let (month, dayOfMonth) := countOff 1 (monthLengths year) (day - yearStart year).toNat
  ⟨year, month, dayOfMonth⟩

/-- The weekday of a day, Sunday being 0. -/
def weekdayOf (day : Int) : Nat := ((day + 4) % 7).toNat

/-- The year found for a day is the one that the day lies in. -/
theorem yearStart_yearOf_le (day : Int) :
    yearStart (yearOf day) ≤ day ∧ day < yearStart (yearOf day + 1) := by
  -- The mean length of a year gives a guess, and the guess is off by one year at most.
  unfold yearOf
  have hguess : 146097 * (400 * day / 146097) ≤ 400 * day ∧
      400 * day < 146097 * (400 * day / 146097 + 1) := by omega
  generalize 400 * day / 146097 = years at hguess
  simp only
  split
  case isTrue h =>
    rw [Int.sub_add_cancel]
    refine ⟨?_, h⟩
    unfold yearStart
    omega
  case isFalse h =>
    split
    case isTrue h' =>
      refine ⟨h', ?_⟩
      unfold yearStart
      omega
    case isFalse h' => omega

end Calendar

end ServiceEngine
