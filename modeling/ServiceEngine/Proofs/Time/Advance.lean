import Mathlib
import ServiceEngine.Proofs.Time.Cadence

/-!
# Fire times advance

A timing finds its next fire time by a search over the calendar, by an addition, or by a look at the clock
of the day; near the end of time each of them may find none. All three keep one law
(`Timing.fire_times_advance`): the next fire time is later, and from a later instant it is not earlier.

For patterns and times of the day the law has one reason. The next fire time is the least instant of those
that are asked for after the given one (`IsNext`), and from a later instant fewer are asked for. An interval
is added to the given instant, so the law is that of addition.
-/

namespace ServiceEngine

/-! ## The least instant that is asked for -/

/-- The instants after `t` that have a property, as long as there are instants. -/
def Instant.laterWith (P : Instant → Prop) (t : Instant) : Set Instant :=
  { u | t < u ∧ u ≤ Instant.last ∧ P u }

/-- The answer is the least instant of a set, or there is none because the set is empty. -/
def IsNext (instants : Set Instant) : Option Instant → Prop
  | some u => IsLeast instants u
  | none => instants = ∅

/-- The next instant is found just if it is the least one. -/
theorem IsNext.eq_some_iff {instants : Set Instant} {answer : Option Instant} (h : IsNext instants answer)
    (u : Instant) : answer = some u ↔ IsLeast instants u := by
  constructor
  · rintro rfl
    exact h
  · intro hu
    cases answer with
    | none =>
      have hempty : instants = ∅ := h
      exact absurd hu.1 (hempty ▸ Set.notMem_empty u)
    | some v =>
      -- Both are the least, so they are the same.
      have hle : v.nanos ≤ u.nanos := h.2 hu.1
      have hge : u.nanos ≤ v.nanos := hu.2 h.1
      obtain ⟨u⟩ := u
      obtain ⟨v⟩ := v
      exact congrArg (fun nanos => some (Instant.mk nanos)) (le_antisymm hle hge)

/-- None is found just if there is none. -/
theorem IsNext.eq_none_iff {instants : Set Instant} {answer : Option Instant} (h : IsNext instants answer) :
    answer = none ↔ instants = ∅ := by
  constructor
  · rintro rfl
    exact h
  · intro hempty
    cases answer with
    | none => rfl
    | some u => exact absurd h.1 (hempty ▸ Set.notMem_empty u)

section

variable {P : Instant → Prop} {a b : Instant}

theorem Instant.laterWith_subset (hab : a ≤ b) : b.laterWith P ⊆ a.laterWith P := by
  rintro u ⟨hafter, hend, hu⟩
  exact ⟨Int.lt_of_le_of_lt hab hafter, hend, hu⟩

/-- From a later instant, the least one that is asked for is not earlier. -/
theorem IsNext.mono {answer : Option Instant} {tb : Instant} (hab : a ≤ b)
    (ha : IsNext (a.laterWith P) answer) (hb : IsNext (b.laterWith P) (some tb)) :
    ∃ ta, answer = some ta ∧ ta ≤ tb := by
  have hmem : tb ∈ a.laterWith P := Instant.laterWith_subset hab hb.1
  cases answer with
  | none =>
    have hempty : a.laterWith P = ∅ := ha
    exact absurd hmem (hempty ▸ Set.notMem_empty tb)
  | some ta => exact ⟨ta, rfl, ha.2 hmem⟩

end

/-! ## Times of the day -/

namespace TimeOfDay

/-- The clock shows this time, and not a moment more. -/
structure Shows (time : TimeOfDay) (t : Instant) : Prop where
  hour_eq : t.hour = time.hour
  minute_eq : t.minute = time.minute
  second_eq : t.second = 0
  subsecond_eq : t.subsecond = 0

theorem nanos_on (time : TimeOfDay) (day : Int) :
    (time.on day).nanos = day * 86400000000000 + (60 * time.hour + time.minute) * 60000000000 := by
  simp only [on, Cron.instantOf, Instant.perDay, Instant.perMinute, Instant.perSecond]
  push_cast
  ring

theorem day_bounds (t : Instant) :
    t.day * 86400000000000 ≤ t.nanos ∧ t.nanos < t.day * 86400000000000 + 86400000000000 := by
  have hday : t.day = t.nanos / 86400000000000 := rfl
  omega

/-- The clock shows a time of the day once on each day. -/
theorem shows_iff {time : TimeOfDay} (hhour : time.hour ≤ 23) (hminute : time.minute ≤ 59) (t : Instant) :
    time.Shows t ↔ t.nanos = (time.on t.day).nanos := by
  have hbounds := day_bounds t
  rw [nanos_on]
  constructor
  · rintro ⟨hhourEq, hminuteEq, hsecond, hsubsecond⟩
    simp only [Instant.hour, Instant.minute, Instant.second, Instant.subsecond, Instant.seconds,
      Instant.perSecond] at *
    omega
  -- The digits of the clock, one after the other.
  · intro heq
    have hhourEq : t.nanos / 1000000000 / 3600 % 24 = time.hour := by omega
    have hminuteEq : t.nanos / 1000000000 / 60 % 60 = time.minute := by omega
    have hsecond : t.nanos / 1000000000 % 60 = 0 := by omega
    have hsubsecond : t.nanos % 1000000000 = 0 := by omega
    refine ⟨?_, ?_, ?_, ?_⟩ <;>
      simp only [Instant.hour, Instant.minute, Instant.second, Instant.subsecond, Instant.seconds,
        Instant.perSecond]
    · omega
    · omega
    · omega
    · omega

section

variable {time : TimeOfDay} {t : Instant}

theorem day_on (hhour : time.hour ≤ 23) (hminute : time.minute ≤ 59) (day : Int) :
    (time.on day).day = day := by
  have hday : (time.on day).day = (time.on day).nanos / 86400000000000 := rfl
  rw [hday, nanos_on]
  omega

/-- If the time of one day has passed, the next one is not before the next day. -/
theorem on_le_of_mem (hhour : time.hour ≤ 23) (hminute : time.minute ≤ 59) {day : Int} {u : Instant}
    (hpassed : time.on (day - 1) ≤ t) (hu : u ∈ t.laterWith time.Shows) : time.on day ≤ u := by
  obtain ⟨hafter, -, hshows⟩ := hu
  have hafter' : t.nanos < u.nanos := hafter
  have hpassed' : (time.on (day - 1)).nanos ≤ t.nanos := hpassed
  have heq := (shows_iff hhour hminute u).mp hshows
  show (time.on day).nanos ≤ u.nanos
  rw [nanos_on] at *
  omega

/-- If the time of the day before has passed and that of this day has not, it is the next one. -/
theorem isLeast_on (hhour : time.hour ≤ 23) (hminute : time.minute ≤ 59) {day : Int}
    (hpassed : time.on (day - 1) ≤ t) (hafter : t < time.on day) (hend : time.on day ≤ Instant.last) :
    IsLeast (t.laterWith time.Shows) (time.on day) := by
  refine ⟨⟨hafter, hend, ?_⟩, fun u hu => on_le_of_mem hhour hminute hpassed hu⟩
  rw [shows_iff hhour hminute, day_on hhour hminute]

/-- A day after a time of the day is that time of the next day, as long as there is one. -/
theorem after?_perDay (time : TimeOfDay) (day : Int) :
    (time.on day).after? Instant.perDay =
      if Instant.first ≤ time.on (day + 1) ∧ time.on (day + 1) ≤ Instant.last then some (time.on (day + 1))
      else none := by
  have hlater : (⟨(time.on day).nanos + Instant.perDay⟩ : Instant) = time.on (day + 1) := by
    have hnanos : (time.on day).nanos + Instant.perDay = (time.on (day + 1)).nanos := by
      rw [nanos_on, nanos_on, show Instant.perDay = 86400000000000 from rfl]
      ring
    rw [hnanos]
  rw [Instant.after?, hlater]

/-- **The next time of the day is the least instant at which the clock shows it.** -/
theorem isNext_next? (hhour : time.hour ≤ 23) (hminute : time.minute ≤ 59) (hfirst : Instant.first ≤ t)
    (hlast : t ≤ Instant.last) : IsNext (t.laterWith time.Shows) ((Timing.dailyAt time).next? t) := by
  have hbounds := day_bounds t
  have hfirst' : Instant.first.nanos ≤ t.nanos := hfirst
  have hlast' : t.nanos ≤ Instant.last.nanos := hlast
  have hend : Instant.last.nanos = 8210266876799999999999 := rfl
  simp only [Timing.next?]
  by_cases htoday : t < time.on t.day
  -- The time of today is still to come, and the last day is a whole day.
  · rw [if_pos htoday]
    refine isLeast_on hhour hminute ?_ htoday ?_
    · show (time.on (t.day - 1)).nanos ≤ t.nanos
      rw [nanos_on]
      omega
    · show (time.on t.day).nanos ≤ Instant.last.nanos
      rw [nanos_on]
      omega
  · have hpassed : time.on (t.day + 1 - 1) ≤ t := by
      rw [Int.add_sub_cancel]
      exact Int.not_lt.mp htoday
    have hafter : t < time.on (t.day + 1) := by
      show t.nanos < (time.on (t.day + 1)).nanos
      rw [nanos_on]
      omega
    have hstart : Instant.first ≤ time.on (t.day + 1) := Int.le_trans hfirst' (Int.le_of_lt hafter)
    rw [if_neg htoday, after?_perDay]
    by_cases htomorrow : time.on (t.day + 1) ≤ Instant.last
    · rw [if_pos ⟨hstart, htomorrow⟩]
      exact isLeast_on hhour hminute hpassed hafter htomorrow
    -- Tomorrow does not exist.
    · rw [if_neg (fun h => htomorrow h.2)]
      apply Set.eq_empty_of_forall_notMem
      intro u hu
      have hle := on_le_of_mem hhour hminute hpassed hu
      exact htomorrow (Int.le_trans hle hu.2.1)

end

end TimeOfDay

/-! ## All timings -/

theorem Cron.isNext_next? {c : Cron} (hc : c.Ordered) (t : Instant) :
    IsNext (t.laterWith c.Fires) (c.next? t) := by
  have hspec := c.next?_spec hc t
  cases hnext : c.next? t with
  | some u =>
    rw [hnext] at hspec
    exact hspec
  | none =>
    rw [hnext] at hspec
    exact hspec

/-- An instant some time later is found just if it exists. -/
theorem Instant.after?_eq_some_iff {t u : Instant} {nanos : Int} :
    t.after? nanos = some u ↔ u.nanos = t.nanos + nanos ∧ first ≤ u ∧ u ≤ last := by
  simp only [Instant.after?]
  split
  case isTrue hrange =>
    rw [Option.some.injEq]
    constructor
    · rintro rfl
      exact ⟨rfl, hrange⟩
    · rintro ⟨heq, -⟩
      rw [← heq]
  case isFalse hrange =>
    refine ⟨nofun, ?_⟩
    rintro ⟨heq, hu⟩
    rw [← heq] at hrange
    exact absurd hu hrange

namespace Timing

section

variable {timing : Timing}

/-- The next fire time is later. -/
theorem lt_of_next? (htiming : timing.WellFormed) {t u : Instant} (hfirst : Instant.first ≤ t)
    (hlast : t ≤ Instant.last) (h : timing.next? t = some u) : t < u ∧ u ≤ Instant.last := by
  cases timing with
  | cron schedule =>
    have hleast := (Cron.isNext_next? htiming t).eq_some_iff u |>.mp h
    exact ⟨hleast.1.1, hleast.1.2.1⟩
  | interval length =>
    obtain ⟨heq, -, hend⟩ := Instant.after?_eq_some_iff.mp h
    -- No interval is empty.
    have hpos : 0 < length.total := htiming
    refine ⟨?_, hend⟩
    show t.nanos < u.nanos
    omega
  | dailyAt time =>
    have hnext := TimeOfDay.isNext_next? htiming.1 htiming.2 hfirst hlast
    have hleast := (hnext.eq_some_iff u).mp h
    exact ⟨hleast.1.1, hleast.1.2.1⟩

/-- From a later instant, the next fire time is not earlier. -/
theorem next?_mono (htiming : timing.WellFormed) {a b tb : Instant} (hfirst : Instant.first ≤ a)
    (hab : a ≤ b) (hlast : b ≤ Instant.last) (h : timing.next? b = some tb) :
    ∃ ta, timing.next? a = some ta ∧ ta ≤ tb := by
  cases timing with
  | cron schedule =>
    have hb := Cron.isNext_next? htiming b
    rw [show schedule.next? b = some tb from h] at hb
    exact (Cron.isNext_next? htiming a).mono hab hb
  | interval length =>
    obtain ⟨heq, -, hend⟩ := Instant.after?_eq_some_iff.mp h
    -- The same length from an earlier instant ends earlier, so within the range too.
    have hle : a.nanos + length.total ≤ tb.nanos := by
      rw [heq]
      exact Int.add_le_add_right hab _
    have hfirst' : Instant.first.nanos ≤ a.nanos := hfirst
    refine ⟨⟨a.nanos + length.total⟩, Instant.after?_eq_some_iff.mpr ⟨rfl, ?_, ?_⟩, hle⟩
    · show Instant.first.nanos ≤ a.nanos + length.total
      omega
    · exact Int.le_trans hle hend
  | dailyAt time =>
    have hb := TimeOfDay.isNext_next? htiming.1 htiming.2 (Int.le_trans hfirst hab) hlast
    rw [h] at hb
    exact (TimeOfDay.isNext_next? htiming.1 htiming.2 hfirst (Int.le_trans hab hlast)).mono hab hb

/-- The fire times after an instant, at most `n` of them, each found from the one before. -/
def fires (timing : Timing) : Nat → Instant → List Instant
  | 0, _ => []
  | n + 1, t =>
    match timing.next? t with
    | some u => u :: timing.fires n u
    | none => []

/-- **Fire times ascend**, each found from the one before. -/
theorem pairwise_fires (htiming : timing.WellFormed) (n : Nat) {t : Instant} (hfirst : Instant.first ≤ t)
    (hlast : t ≤ Instant.last) : (t :: timing.fires n t).Pairwise (· < ·) := by
  induction n generalizing t with
  | zero => exact List.pairwise_singleton _ _
  | succ n ih =>
    rw [fires]
    cases hnext : timing.next? t with
    | none => exact List.pairwise_singleton _ _
    | some u =>
      obtain ⟨hlt, hend⟩ := lt_of_next? htiming hfirst hlast hnext
      have hrest := ih (Int.le_trans hfirst (Int.le_of_lt hlt)) hend
      refine List.pairwise_cons.mpr ⟨?_, hrest⟩
      -- What comes after the next fire time is later than it.
      intro v hv
      rcases List.mem_cons.mp hv with rfl | hv
      · exact hlt
      · exact Int.lt_trans hlt ((List.pairwise_cons.mp hrest).1 v hv)

end

/-- **Fire times advance, and do so monotonically.** For every timing that is read from a pattern or a
cadence and all instants `a ≤ b` that exist: the next fire time after `a`, if there is one, is later than
`a`; and if there is one after `b`, there is one after `a`, not later than that. So fire times that are
found one from the other ascend, however many are asked for. For the cadence `every day at HH:MM` the next
fire time is the least instant after `a` at which the clock shows this time, and there is none only if no
such instant exists. -/
theorem fire_times_advance (timing : Timing) (htiming : timing.Accepted) (a b : Instant)
    (hfirst : Instant.first ≤ a) (hab : a ≤ b) (hlast : b ≤ Instant.last) :
    (∀ t, timing.next? a = some t → a < t ∧ t ≤ Instant.last) ∧
      (∀ tb, timing.next? b = some tb → ∃ ta, timing.next? a = some ta ∧ ta ≤ tb) ∧
      (∀ n, (a :: timing.fires n a).Pairwise (· < ·)) ∧
      ∀ text time, ReadsDailyAt text time → ∃ daily, ofCadence text = .ok daily ∧
        (∀ t, daily.next? a = some t ↔
          IsLeast { u | a < u ∧ u ≤ Instant.last ∧ time.Shows u } t) ∧
        (daily.next? a = none ↔ ¬ ∃ u, a < u ∧ u ≤ Instant.last ∧ time.Shows u) := by
  have hwell := wellFormed_of_accepted htiming
  have hend : a ≤ Instant.last := Int.le_trans hab hlast
  refine ⟨fun t => lt_of_next? hwell hfirst hend, fun tb => next?_mono hwell hfirst hab hlast,
    fun n => pairwise_fires hwell n hfirst hend, ?_⟩
  intro text time htext
  have hread := ofCadence_of_readsDailyAt htext
  have hclock : time.hour ≤ 23 ∧ time.minute ≤ 59 := wellFormed_of_accepted (Or.inr ⟨text, hread⟩)
  have hnext := TimeOfDay.isNext_next? hclock.1 hclock.2 hfirst hend
  refine ⟨_, hread, hnext.eq_some_iff, hnext.eq_none_iff.trans ?_⟩
  rw [Set.eq_empty_iff_forall_notMem, not_exists]
  rfl

/-- On the last day that exists, three nanoseconds past half past nine: what runs every 90 minutes fires
nine times more, and what runs every day at this time has fired for the last time. -/
theorem fire_times_advance_on_last_day :
    let now : Instant := ⟨8210266824600000000003⟩
    let timing : Timing := .interval ⟨5400, 0⟩
    timing.Accepted ∧ Instant.first ≤ now ∧ now ≤ Instant.last ∧
      (timing.fires 20 now).length = 9 ∧ (now :: timing.fires 20 now).Pairwise (· < ·) ∧
      ReadsDailyAt "Every  DAY at 9:30" ⟨9, 30⟩ ∧
      ¬ ∃ u, now < u ∧ u ≤ Instant.last ∧ TimeOfDay.Shows ⟨9, 30⟩ u := by
  intro now timing
  have htiming : timing.Accepted := Or.inr ⟨"Every 90 minutes", by rfl⟩
  have hfirst : Instant.first ≤ now := by decide
  have hlast : now ≤ Instant.last := by decide
  have htext : ReadsDailyAt "Every  DAY at 9:30" ⟨9, 30⟩ :=
    ⟨['9'], ['3', '0'], by decide, by decide, by decide⟩
  obtain ⟨-, -, hfires, hdaily⟩ := fire_times_advance timing htiming now now hfirst (Int.le_refl _) hlast
  obtain ⟨daily, hread, -, hnone⟩ := hdaily _ _ htext
  have hdailyAt : daily = .dailyAt ⟨9, 30⟩ := by
    rw [ofCadence_of_readsDailyAt htext] at hread
    exact (Except.ok.inj hread).symm
  refine ⟨htiming, hfirst, hlast, by decide, hfires 20, htext, hnone.mp ?_⟩
  rw [hdailyAt]
  decide

end Timing

end ServiceEngine
