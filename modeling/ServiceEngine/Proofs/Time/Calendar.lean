import Mathlib
import ServiceEngine.Time.Calendar

/-!
# The calendar counts days and dates alike

A date is a day number and back: `dayOf` adds up whole years and whole months, and `dateOf` undoes it
on every date that exists. From this follows how often a date comes back, whatever the day the count
starts from:

- a day and month come back within 2921 days, the 29th of February around a century year included;
- a month and weekday come back within 732 days.
-/

namespace ServiceEngine.Calendar

/-! ## Dates that exist -/

/-- The length of a month, counted from 1. -/
def monthLength (year : Int) (month : Nat) : Nat := (monthLengths year).getD (month - 1) 0

/-- The days of a year before the first of a month. -/
def daysBefore (year : Int) (month : Nat) : Nat := ((monthLengths year).take (month - 1)).sum

/-- The dates of the calendar: a month of the year and a day of that month. -/
structure Occurs (date : Date) : Prop where
  month_pos : 1 ≤ date.month
  month_le : date.month ≤ 12
  day_pos : 1 ≤ date.day
  day_le : date.day ≤ monthLength date.year date.month

/-- The number of the day of a date. -/
def dayOf (date : Date) : Int :=
  yearStart date.year + daysBefore date.year date.month + (date.day - 1)

/-! ## Years -/

/-- Every fourth year is a leap year, of the century years every fourth. -/
theorem isLeap_iff (year : Int) :
    isLeap year = true ↔ year % 4 = 0 ∧ (year % 100 ≠ 0 ∨ year % 400 = 0) := by
  simp [isLeap]

/-- A year has 365 days, and one more if it is a leap year. -/
theorem yearStart_succ (year : Int) :
    yearStart (year + 1) = yearStart year + 365 + if isLeap year then 1 else 0 := by
  unfold yearStart
  split
  case isTrue h =>
    have := (isLeap_iff year).mp h
    omega
  case isFalse h =>
    have := mt (isLeap_iff year).mpr h
    omega

theorem yearStart_strictMono : StrictMono yearStart := by
  refine strictMono_int_of_lt_succ (fun year => ?_)
  rw [yearStart_succ]
  split <;> omega

/-- No year is longer than 366 days. -/
theorem yearStart_add_le (year : Int) (count : Nat) :
    yearStart (year + count) ≤ yearStart year + 366 * count := by
  induction count with
  | zero => simp
  | succ count ih =>
    have hstep := yearStart_succ (year + count)
    have hassoc : year + (count + 1 : Nat) = year + count + 1 := by
      push_cast
      omega
    rw [hassoc, hstep]
    split <;> push_cast <;> omega

/-- Of four years only the first can be a leap year, if it is a multiple of four. -/
theorem yearStart_add_four (year : Int) (h : year % 4 = 0) :
    yearStart (year + 4) = yearStart year + 1460 + if isLeap year then 1 else 0 := by
  have hnot : ∀ more : Int, 0 < more → more < 4 → ¬ isLeap (year + more) = true := by
    intro more hpos hlt
    rw [isLeap_iff]
    omega
  -- Four steps of one year each; the last three add 365 days.
  have hfirst := yearStart_succ year
  have hsecond := yearStart_succ (year + 1)
  have hthird := yearStart_succ (year + 2)
  have hfourth := yearStart_succ (year + 3)
  rw [if_neg (hnot 1 (by omega) (by omega))] at hsecond
  rw [if_neg (hnot 2 (by omega) (by omega))] at hthird
  rw [if_neg (hnot 3 (by omega) (by omega))] at hfourth
  rw [show year + 1 + 1 = year + 2 by omega] at hsecond
  rw [show year + 2 + 1 = year + 3 by omega] at hthird
  rw [show year + 3 + 1 = year + 4 by omega] at hfourth
  rw [hfourth, hthird, hsecond, hfirst]
  omega

theorem yearOf_eq {day year : Int} (hfrom : yearStart year ≤ day) (hto : day < yearStart (year + 1)) :
    yearOf day = year := by
  obtain ⟨hle, hlt⟩ := yearStart_yearOf_le day
  have hbelow : yearOf day < year + 1 := yearStart_strictMono.lt_iff_lt.mp (hle.trans_lt hto)
  have habove : year < yearOf day + 1 := yearStart_strictMono.lt_iff_lt.mp (hfrom.trans_lt hlt)
  omega

/-! ## Months -/

/-- Counting off passes whole months and stops in the month that holds the rest. -/
theorem countOff_eq (month : Nat) (lengths : List Nat) (passed rest : Nat)
    (hrest : rest < lengths.getD passed 0) :
    countOff month lengths ((lengths.take passed).sum + rest) = (month + passed, rest + 1) := by
  induction lengths generalizing month passed with
  | nil => simp at hrest
  | cons length lengths ih =>
    cases passed with
    | zero =>
      have hlt : rest < length := by simpa using hrest
      simp [countOff, hlt]
    | succ passed =>
      -- The first month is passed whole, and the others are counted off from the next one.
      have hrest' : rest < lengths.getD passed 0 := by simpa using hrest
      have hge : ¬ length + (lengths.take passed).sum + rest < length := by omega
      have hsub : length + (lengths.take passed).sum + rest - length =
          (lengths.take passed).sum + rest := by omega
      simp only [List.take_succ_cons, List.sum_cons, countOff, if_neg hge, hsub, ih _ _ hrest']
      simp only [Prod.mk.injEq, and_true]
      omega

/-- Every day within a list of months lies in one of them. -/
theorem exists_passed (lengths : List Nat) (offset : Nat) (h : offset < lengths.sum) :
    ∃ passed rest, passed < lengths.length ∧ rest < lengths.getD passed 0 ∧
      offset = (lengths.take passed).sum + rest := by
  induction lengths generalizing offset with
  | nil => simp at h
  | cons length lengths ih =>
    by_cases hlt : offset < length
    · exact ⟨0, offset, by simp, by simpa using hlt, by simp⟩
    -- The first month is passed; the rest of the offset lies in the months after it.
    · have hsum : offset - length < lengths.sum := by
        simp only [List.sum_cons] at h
        omega
      obtain ⟨passed, rest, hpassed, hrest, hoffset⟩ := ih _ hsum
      refine ⟨passed + 1, rest, by simpa using hpassed, by simpa using hrest, ?_⟩
      simp only [List.take_succ_cons, List.sum_cons]
      omega

/-- The months of a year are the year. -/
theorem yearStart_succ_eq_sum (year : Int) :
    yearStart (year + 1) = yearStart year + (monthLengths year).sum := by
  rw [yearStart_succ]
  unfold monthLengths
  split
  · simp
    omega
  · simp

/-- Every month but February has the same length in all years; February has 28 days at least. -/
theorem monthLength_cases (year other : Int) (month : Nat) :
    monthLength year month = monthLength other month ∨
      month = 2 ∧ monthLength year month = (if isLeap year then 29 else 28) := by
  unfold monthLength monthLengths
  rcases month with _ | _ | _ | month
  · exact Or.inl rfl
  · exact Or.inl rfl
  · exact Or.inr ⟨rfl, rfl⟩
  · exact Or.inl rfl

theorem monthLength_ge (year : Int) (month : Nat) (hpos : 1 ≤ month) (hle : month ≤ 12) :
    28 ≤ monthLength year month := by
  unfold monthLength monthLengths
  interval_cases month <;> simp
  split <;> omega

/-- A date of a year lies within the year. -/
theorem daysBefore_add_lt (date : Date) (h : Occurs date) :
    daysBefore date.year date.month + (date.day - 1) < (monthLengths date.year).sum := by
  obtain ⟨hpos, hle, hday, hday_le⟩ := h
  have hlen : (monthLengths date.year).length = 12 := rfl
  have hindex : date.month - 1 < (monthLengths date.year).length := by omega
  -- The months up to and with this one are at most the whole year.
  have htake : ((monthLengths date.year).take (date.month - 1 + 1)).sum ≤
      (monthLengths date.year).sum := (List.take_sublist _ _).sum_le_sum (by simp)
  rw [List.sum_take_succ _ _ hindex] at htake
  unfold monthLength at hday_le
  rw [List.getD_eq_getElem _ _ hindex] at hday_le
  unfold daysBefore
  omega

/-! ## Days and dates -/

/-- **The date of the day of a date is that date.** -/
theorem dateOf_dayOf (date : Date) (h : Occurs date) : dateOf (dayOf date) = date := by
  obtain ⟨hpos, hle, hday, hday_le⟩ := h
  -- The days passed in the year are fewer than its length, so the year is found again.
  have hoffset := daysBefore_add_lt date ⟨hpos, hle, hday, hday_le⟩
  have hyear : yearOf (dayOf date) = date.year := by
    apply yearOf_eq
    · unfold dayOf
      omega
    · rw [yearStart_succ_eq_sum]
      unfold dayOf
      omega
  have hcount : (dayOf date - yearStart date.year).toNat =
      daysBefore date.year date.month + (date.day - 1) := by
    unfold dayOf
    omega
  -- Counting off then passes the months before, and the day is what is left.
  have hrest : date.day - 1 < (monthLengths date.year).getD (date.month - 1) 0 := by
    unfold monthLength at hday_le
    omega
  unfold dateOf
  simp only [hyear, hcount]
  unfold daysBefore
  rw [countOff_eq 1 _ _ _ hrest]
  have hmonth : 1 + (date.month - 1) = date.month := by omega
  have hday' : date.day - 1 + 1 = date.day := by omega
  simp only [hmonth, hday']

/-- Every day has a date of the calendar, and is the day of it. -/
theorem dayOf_dateOf (day : Int) : Occurs (dateOf day) ∧ dayOf (dateOf day) = day := by
  obtain ⟨hle, hlt⟩ := yearStart_yearOf_le day
  have hoffset : (day - yearStart (yearOf day)).toNat < (monthLengths (yearOf day)).sum := by
    rw [yearStart_succ_eq_sum] at hlt
    omega
  -- So many months have passed, and so many days of the next one.
  obtain ⟨passed, rest, hpassed, hrest, hsum⟩ := exists_passed _ _ hoffset
  have hdate : dateOf day = ⟨yearOf day, 1 + passed, rest + 1⟩ := by
    unfold dateOf
    simp only [hsum, countOff_eq 1 _ _ _ hrest]
  rw [hdate]
  have hlen : passed < 12 := hpassed
  have hback : 1 + passed - 1 = passed := by omega
  refine ⟨⟨by simp, ?_, by simp, ?_⟩, ?_⟩
  · simp only
    omega
  · simp only [monthLength, hback]
    omega
  · simp only [dayOf, daysBefore, hback]
    omega

theorem dayOf_bounds (date : Date) (h : Occurs date) :
    yearStart date.year ≤ dayOf date ∧ dayOf date < yearStart (date.year + 1) := by
  have hyear : yearOf (dayOf date) = date.year := congrArg Date.year (dateOf_dayOf date h)
  have hbounds := yearStart_yearOf_le (dayOf date)
  rwa [hyear] at hbounds

/-! ## Dates come back -/

/-- Every date of the year after the one a count starts in is met within 732 days. -/
theorem dayOf_next_year {start : Int} {month day : Nat} (h : Occurs ⟨yearOf start + 1, month, day⟩) :
    start ≤ dayOf ⟨yearOf start + 1, month, day⟩ ∧
      dayOf ⟨yearOf start + 1, month, day⟩ < start + 732 := by
  obtain ⟨hle, hlt⟩ := yearStart_yearOf_le start
  obtain ⟨hfrom, hto⟩ := dayOf_bounds _ h
  have htwo := yearStart_add_le (yearOf start) 2
  have hassoc : yearOf start + ((2 : Nat) : Int) = yearOf start + 1 + 1 := by
    push_cast
    omega
  rw [hassoc] at htwo
  simp only at hfrom hto
  constructor
  · omega
  · omega

/-- A date of another year with the same month and day, unless that is the 29th of February. -/
theorem Occurs.of_year {date : Date} (h : Occurs date) (hleapDay : ¬ (date.month = 2 ∧ date.day = 29))
    (year : Int) : Occurs ⟨year, date.month, date.day⟩ := by
  obtain ⟨hpos, hle, hday, hday_le⟩ := h
  refine ⟨hpos, hle, hday, ?_⟩
  rcases monthLength_cases date.year year date.month with hsame | ⟨hmonth, hlength⟩
  · exact hsame ▸ hday_le
  -- In February only the 29th can be missing.
  · have hge := monthLength_ge year date.month hpos hle
    simp only
    split at hlength <;> omega

/-- Leap days are at most 2921 days apart: around a century year that is no leap year, eight years. -/
theorem exists_leapDay (start : Int) :
    ∃ year, isLeap year = true ∧ start ≤ yearStart year + 59 ∧ yearStart year + 59 < start + 2921 := by
  obtain ⟨hle, hlt⟩ := yearStart_yearOf_le start
  generalize yearOf start = year at hle hlt
  by_cases hthis : isLeap year = true ∧ start ≤ yearStart year + 59
  · exact ⟨year, hthis.1, hthis.2, by omega⟩
  -- Otherwise wait for the next year that is a multiple of four.
  · obtain ⟨wait, hwait, hfour⟩ : ∃ wait : Nat, 1 ≤ wait ∧ wait ≤ 4 ∧ (year + wait) % 4 = 0 :=
      ⟨(4 - year % 4).toNat, by omega, by omega, by omega⟩
    have hafter : yearStart (year + 1) ≤ yearStart (year + wait) :=
      yearStart_strictMono.monotone (by omega)
    have hbefore := yearStart_add_le year wait
    by_cases hnext : isLeap (year + wait) = true
    · exact ⟨year + wait, hnext, by omega, by omega⟩
    -- The next multiple of four is a century year without a leap day; the one after it has one.
    · rw [isLeap_iff] at hnext
      refine ⟨year + wait + 4, ?_, ?_, ?_⟩
      · rw [isLeap_iff]
        omega
      · have := yearStart_strictMono (show year + wait < year + wait + 4 by omega)
        omega
      · have hskip := yearStart_add_four (year + wait) hfour.2
        rw [if_neg (by rwa [isLeap_iff])] at hskip
        by_cases hlast : wait = 4
        -- The year itself is a leap year then, and its own leap day has passed.
        · subst hlast
          have hleap : isLeap year = true := by
            rw [isLeap_iff]
            omega
          have hpassed := yearStart_add_four year (by omega)
          rw [if_pos hleap] at hpassed
          simp only [hleap, true_and] at hthis
          push_cast at *
          omega
        · omega

/-- **A day and month come back within 2921 days**, from any day on. -/
theorem exists_same_date (day start : Int) :
    ∃ later, start ≤ later ∧ later < start + 2921 ∧
      (dateOf later).month = (dateOf day).month ∧ (dateOf later).day = (dateOf day).day := by
  obtain ⟨hoccurs, -⟩ := dayOf_dateOf day
  generalize dateOf day = date at hoccurs
  by_cases hleapDay : date.month = 2 ∧ date.day = 29
  -- A leap day comes back on the next leap day.
  · obtain ⟨year, hleap, hfrom, hto⟩ := exists_leapDay start
    have hfeb : Occurs ⟨year, 2, 29⟩ :=
      ⟨by simp, by simp, by simp, by simp [monthLength, monthLengths, hleap]⟩
    have hday : dayOf ⟨year, 2, 29⟩ = yearStart year + 59 := by
      simp [dayOf, daysBefore, monthLengths]
      omega
    refine ⟨dayOf ⟨year, 2, 29⟩, by omega, by omega, ?_⟩
    rw [dateOf_dayOf _ hfeb]
    exact ⟨hleapDay.1.symm, hleapDay.2.symm⟩
  -- Any other date occurs in the year after the first one.
  · have hnext := hoccurs.of_year hleapDay (yearOf start + 1)
    obtain ⟨hfrom, hto⟩ := dayOf_next_year hnext
    refine ⟨dayOf ⟨yearOf start + 1, date.month, date.day⟩, hfrom, by omega, ?_⟩
    rw [dateOf_dayOf _ hnext]
    exact ⟨rfl, rfl⟩

/-- **A month and weekday come back within 732 days**, from any day on. -/
theorem exists_same_weekday (day start : Int) :
    ∃ later, start ≤ later ∧ later < start + 732 ∧
      (dateOf later).month = (dateOf day).month ∧ weekdayOf later = weekdayOf day := by
  obtain ⟨⟨hpos, hmonth, -, -⟩, -⟩ := dayOf_dateOf day
  generalize (dateOf day).month = month at hpos hmonth
  have hlong := monthLength_ge (yearOf start + 1) month hpos hmonth
  -- The first seven days of the month in the next year meet every weekday.
  have hweek : ∀ more : Nat, more < 7 → Occurs ⟨yearOf start + 1, month, 1 + more⟩ := by
    intro more hmore
    exact ⟨hpos, hmonth, by simp, by simp only; omega⟩
  have hfirst : ∀ more : Nat, dayOf ⟨yearOf start + 1, month, 1 + more⟩ =
      dayOf ⟨yearOf start + 1, month, 1⟩ + more := by
    intro more
    simp only [dayOf]
    push_cast
    omega
  obtain ⟨more, hmore, hsame⟩ : ∃ more : Nat, more < 7 ∧
      weekdayOf (dayOf ⟨yearOf start + 1, month, 1⟩ + more) = weekdayOf day := by
    unfold weekdayOf
    generalize dayOf ⟨yearOf start + 1, month, 1⟩ = first
    exact ⟨((day - first) % 7).toNat, by omega, by omega⟩
  obtain ⟨hfrom, hto⟩ := dayOf_next_year (hweek more hmore)
  refine ⟨dayOf ⟨yearOf start + 1, month, 1 + more⟩, hfrom, hto, ?_, ?_⟩
  · rw [dateOf_dayOf _ (hweek more hmore)]
  · rw [hfirst, hsame]

end ServiceEngine.Calendar
