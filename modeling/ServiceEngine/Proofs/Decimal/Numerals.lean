import Mathlib
import ServiceEngine.Decimal.Natural

/-!
# Numerals

A numeral is a run of digits, with leading zeros allowed, perhaps behind a plus sign. `Numeral` says which texts
these are and what number each of them spells, and `unsigned?_eq_some_iff` that the reading of unsigned numbers
accepts exactly the numerals of the numbers below its bound.
-/

namespace ServiceEngine.Decimal

/-- A natural number is read from digits, at least one of them. -/
theorem natural?_eq_some_iff {cs : List Char} {n : Nat} :
    natural? cs = some n ↔ cs ≠ [] ∧ (∀ c ∈ cs, c.isDigit = true) ∧ ofDigits cs = n := by
  unfold natural?
  by_cases hempty : cs = []
  · simp [hempty]
  · simp [hempty]

/-- The texts that spell a number: digits, at least one of them, perhaps behind a plus sign. -/
inductive Numeral : List Char → Nat → Prop where
  | plain {digits : List Char} (hne : digits ≠ []) (hdigits : ∀ c ∈ digits, c.isDigit = true) :
      Numeral digits (ofDigits digits)
  | signed {digits : List Char} (hne : digits ≠ []) (hdigits : ∀ c ∈ digits, c.isDigit = true) :
      Numeral ('+' :: digits) (ofDigits digits)

namespace Numeral

/-- Nothing but digits and the plus sign stands in a numeral. -/
theorem mem {text : List Char} {n : Nat} (h : Numeral text n) {c : Char} (hc : c ∈ text) :
    c = '+' ∨ c.isDigit = true := by
  cases h with
  | plain _ hdigits => exact Or.inr (hdigits c hc)
  | signed _ hdigits =>
    rcases List.mem_cons.mp hc with rfl | hc
    · exact Or.inl rfl
    · exact Or.inr (hdigits c hc)

/-- Separators stand in no numeral. -/
theorem notMem {text : List Char} {n : Nat} (h : Numeral text n) {c : Char} (hplus : c ≠ '+')
    (hdigit : c.isDigit = false) : c ∉ text := by
  intro hc
  rcases h.mem hc with rfl | hc
  · exact hplus rfl
  · rw [hc] at hdigit
    cases hdigit

end Numeral

/-- **Unsigned numbers are read from their numerals**, as long as they are below the bound. -/
theorem unsigned?_eq_some_iff {bound n : Nat} {text : List Char} :
    unsigned? bound text = some n ↔ Numeral text n ∧ n < bound := by
  unfold unsigned?
  simp only [Option.filter_eq_some_iff, decide_eq_true_eq]
  refine and_congr_left fun _ => ?_
  rw [natural?_eq_some_iff]
  split
  case h_1 digits =>
    constructor
    · rintro ⟨hne, hdigits, rfl⟩
      exact .signed hne hdigits
    · intro h
      cases h with
      -- A sign is no digit, so this case does not come up.
      | plain _ hdigits => exact absurd (hdigits '+' List.mem_cons_self) (by decide)
      | signed hne hdigits => exact ⟨hne, hdigits, rfl⟩
  case h_2 hsign =>
    constructor
    · rintro ⟨hne, hdigits, rfl⟩
      exact .plain hne hdigits
    · intro h
      cases h with
      | plain hne hdigits => exact ⟨hne, hdigits, rfl⟩
      | signed hne hdigits => exact absurd rfl (hsign _)

end ServiceEngine.Decimal
