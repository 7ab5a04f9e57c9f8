import Mathlib
import ServiceEngine.Proofs.Time.Reach

/-!
# Delays in seconds

A delay of some seconds can be written as a bare number or as a number of `seconds`. The two are read by different
readers: a bare number is a numeral below the size of a word, checked against `Span.longestBare`; a number with a unit
is read digit by digit and counted in words, and the span is checked against `Span.longest`. They agree on every run of
digits (`Span.seconds_spelled_alike`).
-/

namespace ServiceEngine

/-- The number that digits spell, by the powers of ten. -/
theorem Decimal.ofDigits_eq_positional (cs : List Char) :
    Decimal.ofDigits cs = Nat.ofDigits 10 (cs.reverse.map Decimal.digitValue) := by
  induction cs using List.reverseRecOn with
  | nil => rfl
  | append_singleton cs c ih =>
    have hlast : Decimal.ofDigits (cs ++ [c]) = 10 * Decimal.ofDigits cs + Decimal.digitValue c := by
      simp [Decimal.ofDigits]
    rw [hlast, ih, List.reverse_append, List.reverse_singleton, List.singleton_append, List.map_cons,
      Nat.ofDigits_cons]
    exact Nat.add_comm _ _

namespace Span

theorem ofNanos_seconds (n : Nat) : ofNanos (n * perSecond) = ⟨n, 0⟩ := by
  have hpos : 0 < perSecond := by decide
  rw [ofNanos, Nat.mul_div_cancel n hpos, Nat.mul_mod_left]

section

variable {digits : List Char} (hne : digits ≠ []) (hdigits : ∀ c ∈ digits, c.isDigit = true)

include hdigits

theorem lower_of_digits : Text.lower digits = digits := by
  rw [Text.lower, List.map_congr_left (fun c hc => Decimal.toLower_of_isDigit (hdigits c hc)), List.map_id']

include hne

/-- A number without a unit is no span, whatever its size. -/
theorem parse?_of_digits : parse? digits = none := by
  rw [parse?, Option.eq_none_iff_forall_ne_some]
  intro d hd
  obtain ⟨state, hstate, hfinish⟩ := Option.bind_eq_some_iff.mp hd
  obtain ⟨-, rfl⟩ := (foldlM_number hne hdigits).mp hstate
  cases hfinish

/-- A bare number is a number of seconds, if it is a word. -/
theorem spelled?_digits {d : Span} :
    spelled? digits = some d ↔ Decimal.ofDigits digits < wordSize ∧ ⟨Decimal.ofDigits digits, 0⟩ = d := by
  have htrim : Text.trim digits = digits :=
    Text.trim_of_forall (fun c hc => Text.isBlank_of_isDigit (hdigits c hc))
  simp only [spelled?, htrim, lower_of_digits hdigits]
  have hnumeral : Decimal.Numeral digits (Decimal.ofDigits digits) := .plain hne hdigits
  rcases Nat.lt_or_ge (Decimal.ofDigits digits) wordSize with hlt | hge
  · rw [Decimal.unsigned?_eq_some_iff.mpr ⟨hnumeral, hlt⟩]
    simp [hlt]
  -- A number that is no word is left to the reader of spans, which misses the unit.
  · have hnone : Decimal.unsigned? wordSize digits = none := by
      rw [Option.eq_none_iff_forall_ne_some]
      intro n hn
      obtain ⟨hn, hlt⟩ := Decimal.unsigned?_eq_some_iff.mp hn
      cases hn with
      | plain => exact Nat.not_lt.mpr hge hlt
      | signed => exact absurd (hdigits '+' List.mem_cons_self) (by decide)
    rw [hnone]
    simp [parse?_of_digits hne hdigits, hge]

/-- A number with the unit `seconds` is this number of seconds, if it is a word. -/
theorem spelled?_seconds {d : Span} :
    spelled? (digits ++ " seconds".toList) = some d ↔
      Decimal.ofDigits digits < wordSize ∧ ⟨Decimal.ofDigits digits, 0⟩ = d := by
  have htrim : Text.trim (digits ++ " seconds".toList) = digits ++ " seconds".toList := by
    apply Text.trim_of_ends
    · rw [List.head?_append_of_ne_nil _ hne]
      exact fun c hc => Text.isBlank_of_isDigit (hdigits c (List.mem_of_head? hc))
    · simp [Text.isBlank]
  have hlower : Text.lower (digits ++ " seconds".toList) = digits ++ " seconds".toList := by
    have happend : Text.lower (digits ++ " seconds".toList) = Text.lower digits ++ Text.lower " seconds".toList :=
      List.map_append
    rw [happend, lower_of_digits hdigits]
    rfl
  -- The blank stands in no numeral, so the text is not taken for a bare number.
  have hnone : Decimal.unsigned? wordSize (digits ++ " seconds".toList) = none := by
    rw [Option.eq_none_iff_forall_ne_some]
    intro n hn
    obtain ⟨hn, -⟩ := Decimal.unsigned?_eq_some_iff.mp hn
    exact hn.notMem (c := ' ') (by decide) (by decide) (by simp)
  have hword : ∀ c ∈ "seconds".toList, c.isAlpha = true := List.all_eq_true.mp (by decide)
  have hunit : Unit.ofWord? "seconds" = some (.medium 1) := rfl
  simp only [spelled?, htrim, hlower, hnone]
  rw [show " seconds".toList = ' ' :: "seconds".toList from rfl, parse?_eq_some_iff hne hdigits hword,
    String.ofList_toList, hunit]
  simp [Unit.count, Unit.nanos, ofNanos_seconds]

end

/-- **The two spellings of a delay in seconds agree.** For every run of digits, of any length and with any leading
zeros, the bare number is accepted as a delay just if the number with the unit `seconds` is, and for the same span. It
is accepted just if its decimal value is at most `longestBare`, and the span is then so many seconds. -/
theorem seconds_spelled_alike (digits : String) (hne : digits ≠ "")
    (hdigits : ∀ c ∈ digits.toList, c.isDigit = true) (d : Span) :
    (ofDelay digits = .ok d ↔ ofDelay (digits ++ " seconds") = .ok d) ∧
    (ofDelay digits = .ok d ↔ Nat.ofDigits 10 (digits.toList.reverse.map Decimal.digitValue) ≤ longestBare ∧
      d = ⟨Nat.ofDigits 10 (digits.toList.reverse.map Decimal.digitValue), 0⟩) := by
  have hne' : digits.toList ≠ [] := fun h => hne (String.toList_eq_nil_iff.mp h)
  rw [← Decimal.ofDigits_eq_positional, ofDelay_eq_ok_iff, ofDelay_eq_ok_iff, String.toList_append,
    spelled?_digits hne' hdigits, spelled?_seconds hne' hdigits]
  refine ⟨Iff.rfl, ?_⟩
  rw [le_longestBare_iff]
  constructor
  · rintro ⟨⟨-, rfl⟩, hshort⟩
    exact ⟨hshort, rfl⟩
  · rintro ⟨hshort, rfl⟩
    have hbare := le_longestBare_iff.mpr hshort
    have hword : longestBare < wordSize := by decide
    exact ⟨⟨hbare.trans_lt hword, rfl⟩, hshort⟩

/-- The longest delay of whole seconds, behind more zeros than a word has digits. -/
theorem seconds_spelled_alike_at_limit :
    ofDelay "000000000000000000009223372036854775" = .ok ⟨9223372036854775, 0⟩ ∧
      ofDelay "000000000000000000009223372036854775 seconds" = .ok ⟨9223372036854775, 0⟩ := by
  have hdigits : ∀ c ∈ "000000000000000000009223372036854775".toList, c.isDigit = true :=
    List.all_eq_true.mp (by decide)
  obtain ⟨hagree, haccepts⟩ := seconds_spelled_alike "000000000000000000009223372036854775" (by decide) hdigits
    ⟨9223372036854775, 0⟩
  have hbare := haccepts.mpr ⟨by decide, by decide⟩
  exact ⟨hbare, hagree.mp hbare⟩

end Span

end ServiceEngine
