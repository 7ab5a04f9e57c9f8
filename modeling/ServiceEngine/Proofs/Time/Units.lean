import Mathlib
import ServiceEngine.Decimal.Natural
import ServiceEngine.Time.Span

/-!
# A number and a unit

The reading of spans goes character by character, and all its arithmetic is in words. For a text that is one
number, a blank and one word of letters it comes down to a product (`bounded?_eq_some_iff`): the text is
accepted if the word is a unit and the product fits, and the span is then the number times the length of the
unit.
-/

namespace ServiceEngine.Span

/-! ## Lengths -/

theorem word?_eq_some_iff {n m : Nat} : word? n = some m ↔ n < wordSize ∧ n = m := by
  unfold word?
  split
  case isTrue h => simp [h]
  case isFalse h => simp [h]

theorem word?_of_lt {n : Nat} (h : n < wordSize) : word? n = some n := word?_eq_some_iff.mpr ⟨h, rfl⟩

theorem word?_of_le {n : Nat} (h : wordSize ≤ n) : word? n = none := if_neg (Nat.not_lt.mpr h)

/-- The span of a number of nanoseconds. -/
def ofNanos (n : Nat) : Span := ⟨n / perSecond, n % perSecond⟩

theorem total_ofNanos (n : Nat) : (ofNanos n).total = n := Nat.div_add_mod' n perSecond

namespace Unit

/-- The length of a unit, in nanoseconds. -/
def nanos : Unit → Nat
  | .atom => 1
  | .short nanos => nanos
  | .medium seconds => seconds * perSecond
  | .long seconds => seconds * perSecond

/-- The length of a unit in what it is counted in: nanoseconds or seconds. -/
def count : Unit → Nat
  | .atom => 1
  | .short nanos => nanos
  | .medium seconds => seconds
  | .long seconds => seconds

theorem pos_of_ofWord? {word : String} {unit : Unit} (h : ofWord? word = some unit) :
    0 < unit.nanos ∧ 0 < unit.count := by
  unfold ofWord? at h
  split at h <;> cases h <;> decide

/-- As many units as this can be counted in words, and are not too long for a schedule. -/
structure Holds (unit : Unit) (n : Nat) : Prop where
  counted : n * unit.count < wordSize
  short : n * unit.nanos ≤ longest

theorem Holds.mono {unit : Unit} {m n : Nat} (h : unit.Holds n) (hle : m ≤ n) : unit.Holds m :=
  ⟨(Nat.mul_le_mul_right _ hle).trans_lt h.counted, (Nat.mul_le_mul_right _ hle).trans h.short⟩

theorem Holds.total_le {unit : Unit} {n : Nat} (h : unit.Holds n) : (ofNanos (n * unit.nanos)).total ≤ longest := by
  rw [total_ofNanos]
  exact h.short

end Unit

/-- Nanoseconds are counted in words, and carried into seconds. -/
theorem add?_nanos {n : Nat} {d : Span} : zero.add? 0 n = some d ↔ n < wordSize ∧ ofNanos n = d := by
  rcases Nat.lt_or_ge n wordSize with hn | hn
  · have hseconds : n / perSecond < wordSize := (Nat.div_le_self n perSecond).trans_lt hn
    simp [add?, zero, word?_of_lt hn, word?_of_lt hseconds, ofNanos, hn]
  · simp [add?, zero, word?_of_le hn, hn]

theorem add?_seconds {n : Nat} {d : Span} :
    zero.add? n 0 = some d ↔ n < wordSize ∧ ofNanos (n * perSecond) = d := by
  have hzero : word? 0 = some 0 := word?_of_lt (by decide)
  have hseconds : n * perSecond / perSecond = n := Nat.mul_div_cancel n (by decide)
  rcases Nat.lt_or_ge n wordSize with hn | hn
  · simp [add?, zero, hzero, word?_of_lt hn, ofNanos, hseconds, hn]
  · simp [add?, zero, hzero, word?_of_le hn, hn]

/-- Units that are counted from nothing are a product, if they can be counted in words. -/
theorem addWhole?_zero_eq_some_iff {n : Nat} {unit : Unit} {d : Span} :
    zero.addWhole? n unit = some d ↔ n * unit.count < wordSize ∧ ofNanos (n * unit.nanos) = d := by
  cases unit with
  | atom => simp [addWhole?, Unit.count, Unit.nanos, add?_nanos]
  | short nanos =>
    simp [addWhole?, Unit.count, Unit.nanos, Option.bind_eq_some_iff, word?_eq_some_iff, add?_nanos]
  | medium seconds =>
    simp [addWhole?, Unit.count, Unit.nanos, Option.bind_eq_some_iff, word?_eq_some_iff, add?_seconds,
      Nat.mul_assoc]
  | long seconds =>
    simp [addWhole?, Unit.count, Unit.nanos, Option.bind_eq_some_iff, word?_eq_some_iff, add?_seconds,
      Nat.mul_assoc]

/-- A number and a unit word are closed into a product. -/
theorem close?_zero_eq_some_iff {n : Nat} {letters : List Char} {d : Span} :
    close? zero n none letters = some d ↔ ∃ unit, Unit.ofWord? (String.ofList letters.reverse) = some unit ∧
      n * unit.count < wordSize ∧ ofNanos (n * unit.nanos) = d := by
  simp [close?, Option.bind_eq_some_iff, addWhole?_zero_eq_some_iff]

/-! ## Digits -/

/-- What digits make of the number before them. -/
def withDigits (n : Nat) (cs : List Char) : Nat := cs.foldl (fun n c => 10 * n + Decimal.digitValue c) n

theorem le_withDigits (n : Nat) (cs : List Char) : n ≤ withDigits n cs := by
  induction cs generalizing n with
  | nil => exact le_refl n
  | cons c rest ih =>
    calc n ≤ 10 * n + Decimal.digitValue c := by omega
      _ ≤ withDigits n (c :: rest) := ih _

/-- Digits are added to the number that is read, until it is no word any more. -/
theorem foldlM_digits {read : Span} {cs : List Char} (hcs : ∀ c ∈ cs, c.isDigit = true) {n : Nat}
    (hn : n < wordSize) {state : Reading} :
    cs.foldlM Reading.step (.number read n) = some state ↔
      withDigits n cs < wordSize ∧ .number read (withDigits n cs) = state := by
  induction cs generalizing n with
  | nil => simp [withDigits, hn]
  | cons c rest ih =>
    obtain ⟨hc, hrest⟩ := List.forall_mem_cons.mp hcs
    have hfirst : Reading.step (.number read n) c =
        (word? (10 * n + Decimal.digitValue c)).map (.number read) := by
      rw [Reading.step, if_pos hc]
    rw [List.foldlM_cons, hfirst]
    rcases Nat.lt_or_ge (10 * n + Decimal.digitValue c) wordSize with hlt | hge
    · rw [word?_of_lt hlt]
      exact ih hrest hlt
    -- The number only grows, so it stays too great.
    · have hlarge : wordSize ≤ withDigits n (c :: rest) := hge.trans (le_withDigits _ rest)
      rw [word?_of_le hge]
      simp [Nat.not_lt.mpr hlarge]

theorem digitValue_lt {c : Char} (h : c.isDigit = true) : Decimal.digitValue c < wordSize := by
  simp only [Char.isDigit, Bool.and_eq_true, decide_eq_true_eq, UInt32.le_iff_toNat_le] at h
  have hhigh : c.toNat ≤ 57 := h.2
  show c.toNat - 48 < 18446744073709551616
  omega

/-- A run of digits is read as the number that it spells, if that is a word. -/
theorem foldlM_number {digits : List Char} (hne : digits ≠ []) (hdigits : ∀ c ∈ digits, c.isDigit = true)
    {state : Reading} :
    digits.foldlM Reading.step (.start none) = some state ↔
      Decimal.ofDigits digits < wordSize ∧ .number zero (Decimal.ofDigits digits) = state := by
  cases digits with
  | nil => exact absurd rfl hne
  | cons c rest =>
    obtain ⟨hc, hrest⟩ := List.forall_mem_cons.mp hdigits
    have hfirst : Reading.step (.start none) c = some (.number zero (Decimal.digitValue c)) := by
      rw [Reading.step, if_pos hc]
      rfl
    have hvalue : Decimal.ofDigits (c :: rest) = withDigits (Decimal.digitValue c) rest := by
      simp [Decimal.ofDigits, withDigits]
    rw [List.foldlM_cons, hfirst, hvalue]
    exact foldlM_digits hrest (digitValue_lt hc)

/-! ## Letters -/

theorem toNat_of_isAlpha {c : Char} (h : c.isAlpha = true) :
    (65 ≤ c.toNat ∧ c.toNat ≤ 90) ∨ (97 ≤ c.toNat ∧ c.toNat ≤ 122) := by
  simpa [Char.isAlpha, Char.isUpper, Char.isLower, UInt32.le_iff_toNat_le] using h

/-- A letter is neither a digit nor white space, and can stand in a unit. -/
theorem letter_of_isAlpha {c : Char} (h : c.isAlpha = true) :
    c.isDigit = false ∧ Text.isBlank c = false ∧ isLetter c = true := by
  have hcode := toNat_of_isAlpha h
  refine ⟨?_, ?_, ?_⟩
  · have hdigit : ¬ (48 ≤ c.toNat ∧ c.toNat ≤ 57) := by omega
    simpa [Char.isDigit, UInt32.le_iff_toNat_le] using hdigit
  · simp [Text.isBlank]
    omega
  · have hval : c.val.toNat = c.toNat := rfl
    simp [isLetter, Char.le_def, UInt32.le_iff_toNat_le]
    omega

/-- Letters are collected, the last one first. -/
theorem foldlM_letters {read : Span} {n : Nat} {f : Option Fraction} {cs : List Char}
    (hcs : ∀ c ∈ cs, c.isAlpha = true) (letters : List Char) :
    cs.foldlM Reading.step (.unit read n f letters) = some (.unit read n f (cs.reverse ++ letters)) := by
  induction cs generalizing letters with
  | nil => rfl
  | cons c rest ih =>
    obtain ⟨hc, hrest⟩ := List.forall_mem_cons.mp hcs
    obtain ⟨hdigit, hblank, hletter⟩ := letter_of_isAlpha hc
    have hfirst : Reading.step (.unit read n f letters) c = some (.unit read n f (c :: letters)) := by
      simp [Reading.step, hdigit, hblank, hletter]
    rw [List.foldlM_cons, hfirst]
    simpa using ih hrest (c :: letters)

/-- What is read for a word of letters behind a number. -/
theorem finish_of_letters {n : Nat} {word : List Char} (hword : ∀ c ∈ word, c.isAlpha = true) :
    (word.foldlM Reading.step (.number zero n)).bind Reading.finish = close? zero n none word.reverse := by
  cases word with
  | nil => rfl
  | cons c rest =>
    obtain ⟨hc, hrest⟩ := List.forall_mem_cons.mp hword
    obtain ⟨hdigit, hblank, hletter⟩ := letter_of_isAlpha hc
    have hfirst : Reading.step (.number zero n) c = some (.unit zero n none [c]) := by
      simp [Reading.step, hdigit, hblank, hletter]
    rw [List.foldlM_cons, hfirst]
    simp [foldlM_letters hrest [c], Reading.finish]

/-! ## Both together -/

section

variable {digits word : List Char} (hne : digits ≠ []) (hdigits : ∀ c ∈ digits, c.isDigit = true)
  (hword : ∀ c ∈ word, c.isAlpha = true)

include hne hdigits hword

/-- **A number, a blank and a word** spell so many units of the word, if these can be counted. -/
theorem parse?_eq_some_iff {d : Span} :
    parse? (digits ++ ' ' :: word) = some d ↔
      ∃ unit, Unit.ofWord? (String.ofList word) = some unit ∧
        Decimal.ofDigits digits * unit.count < wordSize ∧ ofNanos (Decimal.ofDigits digits * unit.nanos) = d := by
  rw [parse?, List.foldlM_append]
  rcases Nat.lt_or_ge (Decimal.ofDigits digits) wordSize with hlt | hge
  -- The blank between the number and the unit changes nothing.
  · have hblank : ∀ n, Reading.step (.number zero n) ' ' = some (.number zero n) := fun n => rfl
    rw [(foldlM_number hne hdigits).mpr ⟨hlt, rfl⟩, Option.bind_eq_bind, Option.bind_some, List.foldlM_cons,
      hblank, Option.bind_eq_bind, Option.bind_some, finish_of_letters hword, close?_zero_eq_some_iff,
      List.reverse_reverse]
  -- A number that is no word is not read, and no number of units is less.
  · have hnone : digits.foldlM Reading.step (.start none) = none := by
      apply Option.eq_none_iff_forall_ne_some.mpr
      intro state hstate
      exact Nat.not_lt.mpr hge ((foldlM_number hne hdigits).mp hstate).1
    rw [hnone]
    refine iff_of_false nofun ?_
    rintro ⟨unit, hunit, hlt, -⟩
    have hpos := (Unit.pos_of_ofWord? hunit).2
    exact Nat.not_lt.mpr (hge.trans (Nat.le_mul_of_pos_right _ hpos)) hlt

/-- **A number, a blank and a unit** spell so many units, if these can be counted and are not too long. -/
theorem bounded?_eq_some_iff {d : Span} :
    bounded? (digits ++ ' ' :: word) = some d ↔
      ∃ unit, Unit.ofWord? (String.ofList word) = some unit ∧ unit.Holds (Decimal.ofDigits digits) ∧
        ofNanos (Decimal.ofDigits digits * unit.nanos) = d := by
  rw [bounded?, Option.filter_eq_some_iff, parse?_eq_some_iff hne hdigits hword]
  simp only [decide_eq_true_eq]
  constructor
  · rintro ⟨⟨unit, hunit, hcounted, rfl⟩, hshort⟩
    rw [total_ofNanos] at hshort
    exact ⟨unit, hunit, ⟨hcounted, hshort⟩, rfl⟩
  · rintro ⟨unit, hunit, ⟨hcounted, hshort⟩, rfl⟩
    rw [total_ofNanos]
    exact ⟨⟨unit, hunit, hcounted, rfl⟩, hshort⟩

end

end ServiceEngine.Span
