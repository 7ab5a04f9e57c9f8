import Mathlib
import ServiceEngine.Proofs.Decimal.Numerals
import ServiceEngine.Proofs.Decimal.WholeNumbers
import ServiceEngine.Proofs.Time.FireTime
import ServiceEngine.Proofs.Time.Units
import ServiceEngine.Time.Timing

/-!
# Timings that are read

What is known of a timing because it was read from a text: the sets of a pattern ascend, an interval is not
empty, and a time of the day is one that a clock shows (`Timing.wellFormed_of_accepted`).

`Timing.Spells` lists the words of the cadences with an interval, `Timing.Says` those of all cadences and what they
say, and `Timing.ofCadence_eq_ok_iff` that these are the cadences that are accepted. An interval is a number of units,
and its length is the number times the length of the unit (`Timing.units?_eq_some_iff`).
-/

namespace ServiceEngine

/-! ## Times of the day -/

namespace TimeOfDay

/-- An hour or a minute is one or two digits that spell no more than it may be. -/
theorem part?_eq_some_iff {high n : Nat} {cs : List Char} :
    part? high cs = some n ↔ cs.length ≤ 2 ∧ Decimal.natural? cs = some n ∧ n ≤ high := by
  unfold part?
  by_cases hlength : cs.length ≤ 2
  · simp [hlength, Option.filter_eq_some_iff]
  · simp [hlength]

/-- A time of the day is read from its hour and its minute, of one or two digits each. -/
theorem parse?_eq_some_iff {cs : List Char} {time : TimeOfDay} :
    parse? cs = some time ↔ ∃ hour minute, cs = hour ++ ':' :: minute ∧
      part? 23 hour = some time.hour ∧ part? 59 minute = some time.minute := by
  constructor
  · intro h
    obtain ⟨⟨hour, minute⟩, hcut, h⟩ := Option.bind_eq_some_iff.mp h
    obtain ⟨n, hn, h⟩ := Option.bind_eq_some_iff.mp h
    obtain ⟨m, hm, h⟩ := Option.bind_eq_some_iff.mp h
    obtain rfl := Option.some.inj h
    exact ⟨hour, minute, (Text.cut?_eq_some_iff.mp hcut).2, hn, hm⟩
  · rintro ⟨hour, minute, rfl, hhour, hminute⟩
    -- The colon is the first one, since there are only digits before it.
    have hcolon : ':' ∉ hour := by
      intro hmem
      have hdigit := (Decimal.natural?_eq_some_iff.mp (part?_eq_some_iff.mp hhour).2.1).2.1 ':' hmem
      cases hdigit
    have hcut : Text.cut? ':' (hour ++ ':' :: minute) = some (hour, minute) :=
      Text.cut?_eq_some_iff.mpr ⟨hcolon, rfl⟩
    simp [parse?, hcut, hhour, hminute]

end TimeOfDay

/-! ## Cadences -/

namespace Timing

/-- **`n` units are `n` times as long as the unit.** -/
theorem units?_eq_some_iff {count : Nat} {unit : List Char} {span : Span} (hunit : isUnitWord unit = true) :
    units? count unit = some span ↔ ∃ u, Span.Unit.ofWord? (String.ofList unit) = some u ∧ u.Holds count ∧
      Span.ofNanos (count * u.nanos) = span := by
  have hletters : ∀ c ∈ unit, c.isAlpha = true := List.all_eq_true.mp hunit
  have hdigits : ∀ c ∈ Decimal.digitsOf count, c.isDigit = true := fun c => Decimal.isDigit_of_mem_digitsOf
  rw [units?, Span.bounded?_eq_some_iff (Decimal.digitsOf_ne_nil count) hdigits hletters,
    Decimal.ofDigits_digitsOf]

/-- The words of a cadence with an interval, whatever its length as long as it can be counted in words of 64 bits. A
unit is a word of letters only. -/
inductive Spells : List String → Span → Prop where
  | hourly : Spells ["hourly"] ⟨3600, 0⟩
  | daily : Spells ["daily"] ⟨86400, 0⟩
  | unit {word : String} {u : Span.Unit} (hword : isUnitWord word.toList = true)
      (hu : Span.Unit.ofWord? word = some u) (hcounted : 1 * u.count < Span.wordSize) :
      Spells ["every", word] (.ofNanos u.nanos)
  | units {count word : String} {n : Nat} {u : Span.Unit} (hcount : Decimal.Numeral count.toList n)
      (hlt : n < Span.wordSize) (hpos : 1 ≤ n) (hword : isUnitWord word.toList = true)
      (hu : Span.Unit.ofWord? word = some u) (hcounted : n * u.count < Span.wordSize) :
      Spells ["every", count, word] (.ofNanos (n * u.nanos))

/-- The words of a cadence, and the timing that they give. -/
inductive Says : List String → Timing → Prop where
  | interval {words : List String} {d : Span} (hspells : Spells words d) (hshort : d.total ≤ Span.longest) :
      Says words (.interval d)
  | dailyAt {text : String} {time : TimeOfDay} (htime : TimeOfDay.parse? text.toList = some time) :
      Says ["every", "day", "at", text] (.dailyAt time)

theorem says_interval_iff {words : List String} {d : Span} :
    Says words (.interval d) ↔ Spells words d ∧ d.total ≤ Span.longest := by
  constructor
  · intro h
    cases h with
    | interval hspells hshort => exact ⟨hspells, hshort⟩
  · rintro ⟨hspells, hshort⟩
    exact .interval hspells hshort

/-- What is read is what the words say: one rule for each form of a cadence. -/
theorem says_of_ofWords? {words : List String} {timing : Timing} (h : ofWords? words = some timing) :
    Says words timing := by
  unfold ofWords? at h
  split at h
  case h_1 =>
    obtain rfl := Option.some.inj h
    exact .interval .hourly (by decide)
  case h_2 =>
    obtain rfl := Option.some.inj h
    exact .interval .daily (by decide)
  case h_3 text =>
    obtain ⟨time, htime, rfl⟩ := Option.map_eq_some_iff.mp h
    exact .dailyAt htime
  -- A unit without a count stands for one of it.
  case h_4 word =>
    split at h
    case isTrue hword =>
      obtain ⟨span, hspan, rfl⟩ := Option.map_eq_some_iff.mp h
      obtain ⟨u, hu, hholds, rfl⟩ := (units?_eq_some_iff hword).mp hspan
      rw [String.ofList_toList] at hu
      have hspells : Spells ["every", word] (.ofNanos (1 * u.nanos)) := by
        rw [Nat.one_mul]
        exact .unit hword hu hholds.counted
      exact .interval hspells hholds.total_le
    case isFalse => cases h
  -- A count of zero is refused.
  case h_5 count word =>
    split at h
    case isTrue hword =>
      obtain ⟨n, hn, h⟩ := Option.bind_eq_some_iff.mp h
      split at h
      case isTrue => cases h
      case isFalse hzero =>
        obtain ⟨span, hspan, rfl⟩ := Option.map_eq_some_iff.mp h
        obtain ⟨u, hu, hholds, rfl⟩ := (units?_eq_some_iff hword).mp hspan
        obtain ⟨hnumeral, hlt⟩ := Decimal.unsigned?_eq_some_iff.mp hn
        rw [String.ofList_toList] at hu
        have hpos : 1 ≤ n := Nat.one_le_iff_ne_zero.mpr hzero
        exact .interval (.units hnumeral hlt hpos hword hu hholds.counted) hholds.total_le
    case isFalse => cases h
  case h_6 => cases h

/-- The words of an interval that is not too long are read as this interval. -/
theorem Spells.ofWords? {words : List String} {d : Span} (h : Spells words d) (hshort : d.total ≤ Span.longest) :
    Timing.ofWords? words = some (.interval d) := by
  cases h with
  | hourly => rfl
  | daily => rfl
  | @unit word u hword hu hcounted =>
    rw [Span.total_ofNanos] at hshort
    have hunits : units? 1 word.toList = some (.ofNanos u.nanos) := by
      apply (units?_eq_some_iff hword).mpr
      rw [String.ofList_toList, hu]
      exact ⟨u, rfl, ⟨hcounted, by rwa [Nat.one_mul]⟩, by rw [Nat.one_mul]⟩
    simp [Timing.ofWords?, hword, hunits]
  | @units count word n u hcount hlt hpos hword hu hcounted =>
    rw [Span.total_ofNanos] at hshort
    have hunits : units? n word.toList = some (.ofNanos (n * u.nanos)) := by
      apply (units?_eq_some_iff hword).mpr
      rw [String.ofList_toList, hu]
      exact ⟨u, rfl, ⟨hcounted, hshort⟩, rfl⟩
    have hcountOf : Decimal.unsigned? Span.wordSize count.toList = some n :=
      Decimal.unsigned?_eq_some_iff.mpr ⟨hcount, hlt⟩
    have hzero : n ≠ 0 := Nat.one_le_iff_ne_zero.mp hpos
    -- The tests of the reader are passed: a unit word, a count, and not zero.
    simp [Timing.ofWords?, hword, hcountOf, hzero, hunits]

theorem Says.ofWords? {words : List String} {timing : Timing} (h : Says words timing) :
    Timing.ofWords? words = some timing := by
  cases h with
  | interval hspells hshort => exact hspells.ofWords? hshort
  | dailyAt htime => simp [Timing.ofWords?, htime]

/-- **The cadences that are accepted** are the ones whose words, in lower case, say a timing. -/
theorem ofCadence_eq_ok_iff {text : String} {timing : Timing} :
    ofCadence text = .ok timing ↔
      Says ((Text.words (Text.lower text.toList)).map String.ofList) timing := by
  unfold ofCadence
  constructor
  · intro h
    split at h
    case h_1 hwords =>
      obtain rfl := Except.ok.inj h
      exact says_of_ofWords? hwords
    case h_2 => cases h
  · intro h
    rw [h.ofWords?]

/-- The text reads `every day at HH:MM`, in any letter case and with any white space between the words; an
hour or minute may have one digit. -/
def ReadsDailyAt (text : String) (time : TimeOfDay) : Prop :=
  ∃ hour minute : List Char,
    Text.words (Text.lower text.toList) =
        ["every".toList, "day".toList, "at".toList, hour ++ ':' :: minute] ∧
      (hour.length ≤ 2 ∧ Decimal.natural? hour = some time.hour ∧ time.hour ≤ 23) ∧
      (minute.length ≤ 2 ∧ Decimal.natural? minute = some time.minute ∧ time.minute ≤ 59)

/-- A time of the day is read as this time. -/
theorem ofCadence_of_readsDailyAt {text : String} {time : TimeOfDay} (h : ReadsDailyAt text time) :
    ofCadence text = .ok (.dailyAt time) := by
  obtain ⟨hour, minute, hwords, hhour, hminute⟩ := h
  have hparse : TimeOfDay.parse? (String.ofList (hour ++ ':' :: minute)).toList = some time := by
    rw [String.toList_ofList]
    exact TimeOfDay.parse?_eq_some_iff.mpr ⟨hour, minute, rfl, TimeOfDay.part?_eq_some_iff.mpr hhour,
      TimeOfDay.part?_eq_some_iff.mpr hminute⟩
  rw [ofCadence_eq_ok_iff, hwords]
  exact .dailyAt hparse

/-! ## What is accepted -/

/-- A timing that was read from a pattern or a cadence. -/
def Accepted (timing : Timing) : Prop :=
  (∃ pattern, ofCron pattern = .ok timing) ∨ ∃ text, ofCadence text = .ok timing

/-- What the fire times of a timing rest on. -/
def WellFormed : Timing → Prop
  | .cron schedule => schedule.Ordered
  | .interval length => 0 < length.total
  | .dailyAt time => time.hour ≤ 23 ∧ time.minute ≤ 59

/-- No interval is empty, since no unit is and no count is zero. -/
theorem Spells.total_pos {words : List String} {d : Span} (h : Spells words d) : 0 < d.total := by
  cases h with
  | hourly => decide
  | daily => decide
  | unit _ hu _ =>
    rw [Span.total_ofNanos]
    exact (Span.Unit.pos_of_ofWord? hu).1
  | units _ _ hpos _ hu _ =>
    rw [Span.total_ofNanos]
    exact Nat.mul_pos hpos (Span.Unit.pos_of_ofWord? hu).1

theorem Says.wellFormed {words : List String} {timing : Timing} (h : Says words timing) : timing.WellFormed := by
  cases h with
  | interval hspells _ => exact hspells.total_pos
  | dailyAt htime =>
    obtain ⟨hour, minute, -, hhour, hminute⟩ := TimeOfDay.parse?_eq_some_iff.mp htime
    exact ⟨(TimeOfDay.part?_eq_some_iff.mp hhour).2.2, (TimeOfDay.part?_eq_some_iff.mp hminute).2.2⟩

/-- **A timing that was read is well formed.** -/
theorem wellFormed_of_accepted {timing : Timing} (h : timing.Accepted) : timing.WellFormed := by
  rcases h with ⟨pattern, h⟩ | ⟨text, h⟩
  · unfold ofCron at h
    split at h
    case h_1 schedule hparse =>
      obtain rfl := Except.ok.inj h
      exact Cron.ordered_of_parse hparse
    case h_2 => cases h
  · exact (ofCadence_eq_ok_iff.mp h).wellFormed

end Timing

end ServiceEngine
