import Mathlib
import ServiceEngine.Proofs.Lists
import ServiceEngine.Proofs.Time.Calendar
import ServiceEngine.Time.Cron

/-!
# Fire times are the least instants that fit

The search for the next fire time of a pattern walks over days and, within a day, over the minutes
that fit. It is compared here with a statement that knows of no search: an instant fires if its clock
shows a whole minute, its hour and minute are in the pattern's sets and its day fits.

The argument goes through minutes counted from 1970:

- within a day the first listed minute is the least one that fits (`firstMinute?_spec`);
- the walk over days gives the least minute that fits among the days searched (`search_spec`);
- a day that fits has a successor among the days searched (`exists_fitsDay`), so the bound on their
  number never hides a later fire time.
-/

namespace ServiceEngine

/-! ## What the clock shows -/

namespace Instant

/-- The second that the clock shows. -/
def second (t : Instant) : Nat := (t.seconds % 60).toNat

def minute (t : Instant) : Nat := (t.seconds / 60 % 60).toNat

def hour (t : Instant) : Nat := (t.seconds / 3600 % 24).toNat

end Instant

namespace Cron

/-- An instant at which a pattern fires. -/
structure Fires (c : Cron) (t : Instant) : Prop where
  subsecond_eq : t.subsecond = 0
  second_eq : t.second = 0
  minute_mem : t.minute ∈ c.minutes
  hour_mem : t.hour ∈ c.hours
  fitsDay : c.fitsDay t.day = true

/-- A minute, counted from 1970, that fits. -/
structure FitsMinute (c : Cron) (minute : Int) : Prop where
  fitsDay : c.fitsDay (minute / 1440) = true
  hour_mem : (minute % 1440 / 60).toNat ∈ c.hours
  minute_mem : (minute % 60).toNat ∈ c.minutes

/-- The instants at which a pattern fires are the starts of the minutes that fit. -/
theorem fires_iff (c : Cron) (t : Instant) :
    c.Fires t ↔ ∃ minute : Int, t = ⟨minute * Instant.perMinute⟩ ∧ c.FitsMinute minute := by
  obtain ⟨nanos⟩ := t
  constructor
  -- With no seconds and no fraction, the instant is a whole number of minutes.
  · rintro ⟨hsub, hsec, hmin, hhour, hday⟩
    refine ⟨nanos / Instant.perMinute, ?_, ?_⟩
    · simp only [Instant.subsecond, Instant.second, Instant.seconds, Instant.perSecond,
        Instant.perMinute, Instant.mk.injEq] at *
      omega
    · simp only [Instant.minute, Instant.hour, Instant.day, Instant.seconds, Instant.perDay,
        Instant.perSecond, Instant.perMinute] at *
      have hdayEq : nanos / (60 * 1000000000) / 1440 = nanos / (1440 * (60 * 1000000000)) := by omega
      have hhourEq : nanos / (60 * 1000000000) % 1440 / 60 = nanos / 1000000000 / 3600 % 24 := by omega
      have hminEq : nanos / (60 * 1000000000) % 60 = nanos / 1000000000 / 60 % 60 := by omega
      exact ⟨hdayEq ▸ hday, hhourEq ▸ hhour, hminEq ▸ hmin⟩
  · rintro ⟨minute, heq, hday, hhour, hmin⟩
    obtain rfl : nanos = minute * Instant.perMinute := congrArg Instant.nanos heq
    simp only [Instant.perMinute, Instant.perSecond] at *
    have hdayEq : minute * (60 * 1000000000) / (1440 * (60 * 1000000000)) = minute / 1440 := by omega
    have hhourEq : minute * (60 * 1000000000) / 1000000000 / 3600 % 24 = minute % 1440 / 60 := by omega
    have hminEq : minute * (60 * 1000000000) / 1000000000 / 60 % 60 = minute % 60 := by omega
    refine ⟨?_, ?_, ?_, ?_, ?_⟩
    · simp only [Instant.subsecond, Instant.perSecond]
      omega
    · simp only [Instant.second, Instant.seconds, Instant.perSecond]
      omega
    · simpa only [Instant.minute, Instant.seconds, Instant.perSecond, hminEq] using hmin
    · simpa only [Instant.hour, Instant.seconds, Instant.perSecond, hhourEq] using hhour
    · simpa only [Instant.day, Instant.perDay, Instant.perMinute, Instant.perSecond, hdayEq] using hday

/-! ## Patterns that were read -/

/-- The hours and minutes of a pattern ascend and are hours and minutes of the clock. -/
structure Ordered (c : Cron) : Prop where
  minutes_sorted : c.minutes.Pairwise (· < ·)
  minutes_lt : ∀ minute ∈ c.minutes, minute < 60
  hours_sorted : c.hours.Pairwise (· < ·)
  hours_lt : ∀ hour ∈ c.hours, hour < 24

theorem values_sorted (b : Bounds) (parts : List Part) : (values b parts).Pairwise (· < ·) :=
  List.pairwise_lt_range.filter _

theorem values_le (b : Bounds) (parts : List Part) : ∀ v ∈ values b parts, v ≤ b.high := by
  intro v hv
  have hrange := (List.mem_filter.mp hv).1
  have hlt := List.mem_range.mp hrange
  omega

/-- What was read is in order: values are listed by going through the bounds of their field. -/
theorem ordered_of_parse {text : List Char} {c : Cron} (h : parse text = .ok c) : c.Ordered := by
  unfold parse at h
  split at h
  case h_1 =>
    -- All five fields were read, each as the values that its parts name within its bounds.
    obtain ⟨minutes, -, h⟩ := ok_of_bind h
    obtain ⟨hours, -, h⟩ := ok_of_bind h
    obtain ⟨days, -, h⟩ := ok_of_bind h
    obtain ⟨months, -, h⟩ := ok_of_bind h
    obtain ⟨weekdays, -, h⟩ := ok_of_bind h
    cases h
    have hminutes := values_le minuteBounds minutes
    have hhours := values_le hourBounds hours
    exact ⟨values_sorted _ _, fun m hm => Nat.lt_succ_of_le (hminutes m hm),
      values_sorted _ _, fun m hm => Nat.lt_succ_of_le (hhours m hm)⟩
  case h_2 => cases h

/-! ## Within a day -/

/-- The minutes of a day that fit, as the search lists them. -/
def dayMinutes (c : Cron) : List Nat :=
  c.hours.flatMap (fun hour => c.minutes.map (fun minute => 60 * hour + minute))

/-- The search lists the minutes whose hour and minute are in the sets. -/
theorem mem_dayMinutes (c : Cron) (n : Nat) (hc : c.Ordered) :
    n ∈ c.dayMinutes ↔ n < 1440 ∧ n / 60 ∈ c.hours ∧ n % 60 ∈ c.minutes := by
  simp only [dayMinutes, List.mem_flatMap, List.mem_map]
  constructor
  · rintro ⟨hour, hhour, minute, hminute, rfl⟩
    have hlt := hc.minutes_lt minute hminute
    have hlt' := hc.hours_lt hour hhour
    have hdiv : (60 * hour + minute) / 60 = hour := by omega
    have hmod : (60 * hour + minute) % 60 = minute := by omega
    rw [hdiv, hmod]
    exact ⟨by omega, hhour, hminute⟩
  · rintro ⟨-, hhour, hminute⟩
    exact ⟨n / 60, hhour, n % 60, hminute, by omega⟩

theorem dayMinutes_sorted (c : Cron) (hc : c.Ordered) : c.dayMinutes.Pairwise (· < ·) := by
  unfold dayMinutes
  rw [List.pairwise_flatMap]
  constructor
  · intro hour _
    rw [List.pairwise_map]
    exact hc.minutes_sorted.imp (fun h => by omega)
  -- An earlier hour ends before a later one begins.
  · refine hc.hours_sorted.imp (fun {first second} h => ?_)
    intro a ha b hb
    obtain ⟨m, hm, rfl⟩ := List.mem_map.mp ha
    obtain ⟨n, _, rfl⟩ := List.mem_map.mp hb
    have hlt := hc.minutes_lt m hm
    omega

/-- A minute fits if its day does and it is one of those listed for a day. -/
theorem fitsMinute_iff (c : Cron) (hc : c.Ordered) (minute : Int) :
    c.FitsMinute minute ↔
      c.fitsDay (minute / 1440) = true ∧ (minute % 1440).toNat ∈ c.dayMinutes := by
  rw [mem_dayMinutes c _ hc]
  have hhour : (minute % 1440).toNat / 60 = (minute % 1440 / 60).toNat := by omega
  have hmin : (minute % 1440).toNat % 60 = (minute % 60).toNat := by omega
  have hlt : (minute % 1440).toNat < 1440 := by omega
  rw [hhour, hmin]
  constructor
  · rintro ⟨hday, hhour, hmin⟩
    exact ⟨hday, hlt, hhour, hmin⟩
  · rintro ⟨hday, -, hhour, hmin⟩
    exact ⟨hday, hhour, hmin⟩

/-- The minutes that fit on a day, from the minute `start` of the day on. -/
def fitting (c : Cron) (day : Int) (start : Nat) : Set Int :=
  { minute | c.FitsMinute minute ∧ minute / 1440 = day ∧ day * 1440 + start ≤ minute }

/-- **One day of the search** finds the least minute of the day that fits, or there is none. -/
theorem firstMinute?_spec (c : Cron) (hc : c.Ordered) (day : Int) (start : Nat) :
    match if c.fitsDay day then c.firstMinute? start else none with
    | some minute => IsLeast (c.fitting day start) (day * 1440 + minute)
    | none => c.fitting day start = ∅ := by
  by_cases hday : c.fitsDay day = true
  · simp only [hday, if_true]
    cases hfirst : c.firstMinute? start with
    | some n =>
      -- The search takes the first listed minute, and the list ascends.
      obtain ⟨⟨hmem, hstart⟩, hleast⟩ := find?_isLeast (dayMinutes_sorted c hc) hfirst
      have hlt := ((mem_dayMinutes c n hc).mp hmem).1
      have hdiv : (day * 1440 + n) / 1440 = day := by omega
      have hmod : ((day * 1440 + n) % 1440).toNat = n := by omega
      refine ⟨⟨?_, hdiv, by omega⟩, ?_⟩
      · rw [fitsMinute_iff c hc, hdiv, hmod]
        exact ⟨hday, hmem⟩
      · rintro minute ⟨hfits, hon, hfrom⟩
        have hlisted := ((fitsMinute_iff c hc minute).mp hfits).2
        have hbound : n ≤ (minute % 1440).toNat := hleast ⟨hlisted, by omega⟩
        omega
    -- No listed minute is late enough.
    | none =>
      refine Set.eq_empty_of_forall_notMem ?_
      rintro minute ⟨hfits, hon, hfrom⟩
      have hlisted := ((fitsMinute_iff c hc minute).mp hfits).2
      have hnone := List.find?_eq_none.mp hfirst _ hlisted
      simp only [decide_eq_true_eq] at hnone
      omega
  · simp only [hday, if_false, Bool.false_eq_true]
    refine Set.eq_empty_of_forall_notMem ?_
    rintro minute ⟨hfits, rfl, -⟩
    exact hday hfits.fitsDay

/-! ## Day by day -/

/-- The minutes that fit among the days searched: `count` of them from `day` on, the first from its
minute `start` on, and none after the last day that exists. -/
def searched (c : Cron) (count : Nat) (day : Int) (start : Nat) : Set Int :=
  { minute | c.FitsMinute minute ∧ day * 1440 + start ≤ minute ∧ minute / 1440 < day + count ∧
    minute / 1440 ≤ Instant.last.day }

/-- One day more is the first day, from its minute on, and the other days whole. -/
theorem searched_succ (c : Cron) (count : Nat) (day : Int) (start : Nat) (hstart : start < 1440)
    (hlast : day ≤ Instant.last.day) :
    c.searched (count + 1) day start = c.fitting day start ∪ c.searched count (day + 1) 0 := by
  ext minute
  simp only [searched, fitting, Set.mem_union, Set.mem_ofPred_eq]
  constructor
  · rintro ⟨hfits, hfrom, hto, hend⟩
    by_cases hon : minute / 1440 = day
    · exact Or.inl ⟨hfits, hon, hfrom⟩
    · exact Or.inr ⟨hfits, by omega, by omega, hend⟩
  · rintro (⟨hfits, hon, hfrom⟩ | ⟨hfits, hfrom, hto, hend⟩)
    · exact ⟨hfits, hfrom, by omega, by omega⟩
    · exact ⟨hfits, by omega, by omega, hend⟩

/-- **The walk over days** finds the least minute that fits among the days searched, or there is none. -/
theorem search_spec (c : Cron) (hc : c.Ordered) (count : Nat) (day : Int) (start : Nat)
    (hstart : start < 1440) :
    match c.search count day start with
    | some t => ∃ minute : Int, t = ⟨minute * Instant.perMinute⟩ ∧
        IsLeast (c.searched count day start) minute
    | none => c.searched count day start = ∅ := by
  -- Induction on the days left; only the first of them is searched from `start`, the others whole.
  induction count generalizing day start with
  | zero =>
    refine Set.eq_empty_of_forall_notMem ?_
    rintro minute ⟨-, hfrom, hto, -⟩
    simp only [Nat.cast_zero, add_zero] at hto
    omega
  | succ count ih =>
    unfold search
    by_cases hlast : Instant.last.day < day
    -- Time is over before this day.
    · simp only [hlast, if_true]
      refine Set.eq_empty_of_forall_notMem ?_
      rintro minute ⟨-, hfrom, -, hend⟩
      omega
    · simp only [hlast, if_false]
      rw [searched_succ c count day start hstart (by omega)]
      have hfirst := firstMinute?_spec c hc day start
      cases hfound : (if c.fitsDay day then c.firstMinute? start else none) with
      | some n =>
        rw [hfound] at hfirst
        refine ⟨day * 1440 + n, ?_, Or.inl hfirst.1, ?_⟩
        · simp only [instantOf, Instant.perDay, Instant.mk.injEq]
          ring
        -- Whatever fits on a later day comes after the whole of this day.
        · rintro minute (hmem | ⟨-, hfrom, -, -⟩)
          · exact hfirst.2 hmem
          · have hon := hfirst.1.2.1
            omega
      | none =>
        rw [hfound] at hfirst
        have hrest := ih (day + 1) 0 (by omega)
        simp only [hfirst, Set.empty_union]
        exact hrest

/-! ## The bound on the search -/

/-- **A day that fits comes back within 2921 days**, from any day on. -/
theorem exists_fitsDay (c : Cron) (day start : Int) (h : c.fitsDay day = true) :
    ∃ later, start ≤ later ∧ later < start + 2921 ∧ c.fitsDay later = true := by
  obtain ⟨sameDate, hfrom, hto, hmonth, hday⟩ := Calendar.exists_same_date day start
  obtain ⟨sameWeekday, hfrom', hto', hmonth', hweekday⟩ := Calendar.exists_same_weekday day start
  unfold fitsDay at h ⊢
  simp only [Bool.and_eq_true] at h ⊢
  obtain ⟨hmonths, hdays⟩ := h
  -- A pattern that restricts weekdays may need the weekday back, any other the date.
  cases hany : c.anyDay <;> cases hanyWeekday : c.anyWeekday <;> simp only [hany, hanyWeekday] at hdays
  · rcases Bool.or_eq_true_iff.mp hdays with hdays | hdays
    · exact ⟨sameDate, hfrom, hto, by rwa [hmonth], by simp only [hday, hdays, Bool.true_or]⟩
    · exact ⟨sameWeekday, hfrom', by omega, by rwa [hmonth'], by
        simp only [hweekday, hdays, Bool.or_true]⟩
  · exact ⟨sameDate, hfrom, hto, by rwa [hmonth], by simpa only [hday] using hdays⟩
  · exact ⟨sameWeekday, hfrom', by omega, by rwa [hmonth'], by simpa only [hweekday] using hdays⟩
  · exact ⟨sameDate, hfrom, hto, by rwa [hmonth], rfl⟩

/-- The minutes that fit from `minute` on, as long as there are days. -/
def upcoming (c : Cron) (minute : Int) : Set Int :=
  { later | c.FitsMinute later ∧ minute ≤ later ∧ later / 1440 ≤ Instant.last.day }

/-- The days searched hold a minute that fits if any later day does, and then the same least one. -/
theorem searched_or_empty (c : Cron) (minute : Int) :
    let searched := c.searched searchDays (minute / 1440) (minute % 1440).toNat
    (searched = ∅ → c.upcoming minute = ∅) ∧
      ∀ least, IsLeast searched least → IsLeast (c.upcoming minute) least := by
  have hfrom : minute / 1440 * 1440 + (minute % 1440).toNat = minute := by omega
  simp only [searched, hfrom, searchDays]
  constructor
  · intro hempty
    refine Set.eq_empty_of_forall_notMem ?_
    rintro later ⟨hfits, hlater, hend⟩
    obtain ⟨day, hday, hday', hfitsDay⟩ :=
      c.exists_fitsDay (later / 1440) (minute / 1440 + 1) hfits.fitsDay
    by_cases hnear : later / 1440 < minute / 1440 + 2928
    · exact Set.notMem_empty later (hempty ▸ ⟨hfits, hlater, hnear, hend⟩)
    -- The same time of day on a day within the bound fits as well.
    · have hdiv : (day * 1440 + later % 1440) / 1440 = day := by omega
      have hmod : (day * 1440 + later % 1440) % 1440 = later % 1440 := by omega
      have hmod' : (day * 1440 + later % 1440) % 60 = later % 60 := by omega
      have hcopy : c.FitsMinute (day * 1440 + later % 1440) :=
        ⟨by rwa [hdiv], by rw [hmod]; exact hfits.hour_mem, by rw [hmod']; exact hfits.minute_mem⟩
      refine Set.notMem_empty (day * 1440 + later % 1440) (hempty ▸ ⟨hcopy, ?_, ?_, ?_⟩)
      · omega
      · push_cast
        omega
      · omega
  -- A minute found within the bound is less than any beyond it.
  · rintro least ⟨⟨hfits, hmin, hnear, hend⟩, hleast⟩
    refine ⟨⟨hfits, hmin, hend⟩, ?_⟩
    rintro later ⟨hfits', hmin', hend'⟩
    by_cases hnear' : later / 1440 < minute / 1440 + (366 * 8 : Nat)
    · exact hleast ⟨hfits', hmin', hnear', hend'⟩
    · omega

/-! ## The next fire time -/

/-- The instants after `t` at which a pattern fires, as long as there are instants. -/
def firesAfter (c : Cron) (t : Instant) : Set Instant :=
  { u | t < u ∧ u ≤ Instant.last ∧ c.Fires u }

/-- The instants at which a pattern fires after `t` are the starts of the minutes that fit after the
minute of `t`. -/
theorem mem_firesAfter_iff (c : Cron) (t u : Instant) :
    u ∈ c.firesAfter t ↔ ∃ minute ∈ c.upcoming (t.nanos / Instant.perMinute + 1),
      u = ⟨minute * Instant.perMinute⟩ := by
  have hlast : Instant.last.nanos = 8210266876799999999999 := rfl
  have hlastDay : Instant.last.day = 95026236 := rfl
  have hperMinute : Instant.perMinute = 60000000000 := rfl
  constructor
  · rintro ⟨hafter, hend, hfires⟩
    -- Fire times are whole minutes, so later than the instant means in a later minute.
    obtain ⟨minute, rfl, hfits⟩ := (fires_iff c u).mp hfires
    have hafter' : t.nanos < minute * Instant.perMinute := hafter
    have hend' : minute * Instant.perMinute ≤ Instant.last.nanos := hend
    rw [hperMinute] at *
    exact ⟨minute, ⟨hfits, by omega, by omega⟩, rfl⟩
  · rintro ⟨minute, ⟨hfits, hafter, hend⟩, rfl⟩
    refine ⟨?_, ?_, (fires_iff c _).mpr ⟨minute, rfl, hfits⟩⟩
    · show t.nanos < minute * Instant.perMinute
      rw [hperMinute] at *
      omega
    · show minute * Instant.perMinute ≤ Instant.last.nanos
      rw [hperMinute] at *
      omega

/-- **The search gives the least instant, or there is none.** -/
theorem next?_spec (c : Cron) (hc : c.Ordered) (t : Instant) :
    match c.next? t with
    | some u => IsLeast (c.firesAfter t) u
    | none => c.firesAfter t = ∅ := by
  -- The search begins with the minute after the instant.
  have hsearch := c.search_spec hc searchDays ((t.nanos / Instant.perMinute + 1) / 1440)
    ((t.nanos / Instant.perMinute + 1) % 1440).toNat (by omega)
  obtain ⟨hempty, hleast⟩ := c.searched_or_empty (t.nanos / Instant.perMinute + 1)
  unfold next?
  simp only
  cases hfound : c.search searchDays ((t.nanos / Instant.perMinute + 1) / 1440)
      ((t.nanos / Instant.perMinute + 1) % 1440).toNat with
  | some u =>
    rw [hfound] at hsearch
    obtain ⟨minute, rfl, hminute⟩ := hsearch
    obtain ⟨hmem, hbound⟩ := hleast minute hminute
    refine ⟨(c.mem_firesAfter_iff t _).mpr ⟨minute, hmem, rfl⟩, ?_⟩
    -- Minutes and instants are ordered alike.
    intro other hother
    obtain ⟨minute', hmem', rfl⟩ := (c.mem_firesAfter_iff t other).mp hother
    have hle := hbound hmem'
    show minute * Instant.perMinute ≤ minute' * Instant.perMinute
    exact Int.mul_le_mul_of_nonneg_right hle (by decide)
  | none =>
    rw [hfound] at hsearch
    refine Set.eq_empty_of_forall_notMem ?_
    intro u hu
    obtain ⟨minute, hmem, -⟩ := (c.mem_firesAfter_iff t u).mp hu
    exact Set.notMem_empty minute (hempty hsearch ▸ hmem)

/-- **The next fire time is the least instant that fits**: for every pattern that is accepted and every
instant, the answer is the least later instant at which the pattern fires, and there is no answer
exactly if the pattern does not fire again before the end of time. -/
theorem next?_eq_least {text : List Char} {c : Cron} (h : parse text = .ok c) (t : Instant) :
    (∀ u, c.next? t = some u ↔ IsLeast (c.firesAfter t) u) ∧
      (c.next? t = none ↔ ¬ ∃ u, t < u ∧ u ≤ Instant.last ∧ c.Fires u) := by
  have hspec := c.next?_spec (ordered_of_parse h) t
  cases hnext : c.next? t with
  | some u =>
    rw [hnext] at hspec
    refine ⟨fun v => ?_, ?_⟩
    · constructor
      · rintro ⟨⟩
        exact hspec
      · intro hv
        -- Instants are compared by their nanoseconds, and two least ones have the same.
        have hle : u.nanos ≤ v.nanos := hspec.2 hv.1
        have hge : v.nanos ≤ u.nanos := hv.2 hspec.1
        obtain ⟨u⟩ := u
        obtain ⟨v⟩ := v
        exact congrArg (fun nanos => some (Instant.mk nanos)) (le_antisymm hle hge)
    · simp only [reduceCtorEq, false_iff, not_not]
      exact ⟨u, hspec.1⟩
  | none =>
    rw [hnext] at hspec
    refine ⟨fun v => ?_, ?_⟩
    · simp only [reduceCtorEq, false_iff]
      intro hv
      exact Set.notMem_empty v (hspec ▸ hv.1)
    · simp only [true_iff]
      rintro ⟨u, hu⟩
      exact Set.notMem_empty u (hspec ▸ (hu : u ∈ c.firesAfter t))

/-- Seen from 29 February 2096, the leap day pattern next fires on 29 February 2104: the year 2100 has no such
day. -/
theorem next?_leapDay_2104 :
    ∃ c, parse "0 0 29 2 *".toList = .ok c ∧
      IsLeast (c.firesAfter (Instant.ofSeconds 3981312000 0)) (Instant.ofSeconds 4233686400 0) := by
  have hparse : parse "0 0 29 2 *".toList =
      .ok ⟨[0], [0], [29], [2], [0, 1, 2, 3, 4, 5, 6], false, true⟩ := by decide +kernel
  refine ⟨_, hparse, ((next?_eq_least hparse _).1 _).mp ?_⟩
  decide +kernel

end Cron

end ServiceEngine
