import Mathlib
import ServiceEngine.Proofs.Time.Advance
import ServiceEngine.Proofs.Time.Cadence

/-!
# Spans and the end of time

A text is accepted as a delay, or as the interval of a cadence, if its length is at most `Span.longest`: as many
milliseconds as a signed word can count. The instants that exist are much closer together. From the first to the last
it is `Instant.reach`, and a longer span leads from no instant to another (`Span.usable_iff`).

Between the two lengths a span is accepted and can never be waited for. `Span.accepted_usable_iff` says which of the
accepted spans can be, and `Span.accepted_beyond_reach` has one that cannot.
-/

namespace ServiceEngine

/-- The nanoseconds from the first instant to the last. -/
def Instant.reach : Nat := (last.nanos - first.nanos).toNat

theorem Instant.nanos_last : last.nanos = first.nanos + reach := by decide

namespace Span

/-- Some instant that exists is followed, a span later, by another one. -/
def Usable (d : Span) : Prop :=
  ∃ t u : Instant, Instant.first ≤ t ∧ t ≤ Instant.last ∧ t.after? d.total = some u

/-- A span can be waited for just if it is no longer than from the first instant to the last. -/
theorem usable_iff {d : Span} : d.Usable ↔ d.total ≤ Instant.reach := by
  have hlast := Instant.nanos_last
  constructor
  · rintro ⟨t, u, hfirst, -, hu⟩
    obtain ⟨heq, -, hend⟩ := Instant.after?_eq_some_iff.mp hu
    have hfirst' : Instant.first.nanos ≤ t.nanos := hfirst
    have hend' : u.nanos ≤ Instant.last.nanos := hend
    omega
  · intro hle
    -- The first instant has the most time after it.
    refine ⟨Instant.first, ⟨Instant.first.nanos + d.total⟩, Int.le_refl _, by decide, ?_⟩
    apply Instant.after?_eq_some_iff.mpr
    refine ⟨rfl, ?_, ?_⟩
    · show Instant.first.nanos ≤ Instant.first.nanos + d.total
      omega
    · show Instant.first.nanos + d.total ≤ Instant.last.nanos
      omega

/-- **An interval that is too long never fires**, and only one that is too long. -/
theorem next?_eq_none_iff {d : Span} :
    (∀ t, Instant.first ≤ t → (Timing.interval d).next? t = none) ↔ Instant.reach < d.total := by
  rw [← Nat.not_le, ← usable_iff]
  constructor
  · rintro hnone ⟨t, u, hfirst, -, hu⟩
    have hnext : (Timing.interval d).next? t = some u := hu
    rw [hnone t hfirst] at hnext
    cases hnext
  · intro hunusable t hfirst
    rw [Option.eq_none_iff_forall_ne_some]
    intro u hu
    -- An instant beyond the last one is not before an instant that exists.
    have hle : t ≤ Instant.last := by
      obtain ⟨heq, -, hend⟩ := Instant.after?_eq_some_iff.mp hu
      have hend' : u.nanos ≤ Instant.last.nanos := hend
      show t.nanos ≤ Instant.last.nanos
      omega
    exact hunusable ⟨t, u, hfirst, hle, hu⟩

/-! ## What is accepted -/

/-- The span that a delay spells, whatever its length: a bare number of seconds, or numbers with units. -/
def spelled? (text : List Char) : Option Span :=
  let text := Text.lower (Text.trim text)
  match Decimal.unsigned? wordSize text with
  | some seconds => some ⟨seconds, 0⟩
  | none => parse? text

/-- The limit for a bare number of seconds is the limit for spans. -/
theorem le_longestBare_iff {seconds : Nat} : seconds ≤ longestBare ↔ (⟨seconds, 0⟩ : Span).total ≤ longest := by
  simp only [longestBare, total, perSecond, longest]
  omega

/-- The limits of the two spellings are one limit. -/
theorem ofDelay?_eq_filter (text : List Char) :
    ofDelay? text = (spelled? text).filter (fun d => d.total ≤ longest) := by
  simp only [ofDelay?, spelled?]
  cases Decimal.unsigned? wordSize (Text.lower (Text.trim text)) with
  | none => rfl
  | some seconds => simp [Option.filter, le_longestBare_iff]

/-- **A delay is accepted just if it spells a span that is not too long.** -/
theorem ofDelay_eq_ok_iff {text : String} {d : Span} :
    ofDelay text = .ok d ↔ spelled? text.toList = some d ∧ d.total ≤ longest := by
  have hread : ofDelay text = .ok d ↔ ofDelay? text.toList = some d := by
    unfold ofDelay
    cases ofDelay? text.toList with
    | none => simp
    | some d' => simp
  rw [hread, ofDelay?_eq_filter, Option.filter_eq_some_iff, decide_eq_true_iff]

/-- **Spans are checked against `longest`, and can be waited for up to `Instant.reach`.** A text is accepted as a
delay, or as a cadence with an interval, just if it spells a span of at most `longest`. The span leads from some
instant to another just if it is not longer than from the first instant to the last, and an interval that is longer
never fires. -/
theorem accepted_usable_iff (text : String) (d : Span) :
    (ofDelay text = .ok d ↔ spelled? text.toList = some d ∧ d.total ≤ longest) ∧
    (Timing.ofCadence text = .ok (.interval d) ↔
      Timing.Spells ((Text.words (Text.lower text.toList)).map String.ofList) d ∧ d.total ≤ longest) ∧
    (d.Usable ↔ d.total ≤ Instant.reach) ∧
    ((∀ t, Instant.first ≤ t → (Timing.interval d).next? t = none) ↔ Instant.reach < d.total) := by
  refine ⟨ofDelay_eq_ok_iff, ?_, usable_iff, next?_eq_none_iff⟩
  rw [Timing.ofCadence_eq_ok_iff, Timing.says_interval_iff]

/-- The longest span of use, to the nanosecond. -/
theorem accepted_usable_iff_at_reach :
    ofDelay "16544868105599.999999999 s" = .ok ⟨16544868105599, 999999999⟩ ∧
      Usable ⟨16544868105599, 999999999⟩ := by
  have hdelay : ofDelay "16544868105599.999999999 s" = .ok ⟨16544868105599, 999999999⟩ := rfl
  exact ⟨hdelay, (accepted_usable_iff "16544868105599.999999999 s" _).2.2.1.mpr (by decide)⟩

/-- A nanosecond more is still accepted, as a delay and as a cadence, and is of no use. -/
theorem accepted_beyond_reach :
    ofDelay "16544868105600" = .ok ⟨16544868105600, 0⟩ ∧
      Timing.ofCadence "every 16544868105600 seconds" = .ok (.interval ⟨16544868105600, 0⟩) ∧
      ¬ Usable ⟨16544868105600, 0⟩ := by
  refine ⟨rfl, ?_, ?_⟩
  · rfl
  · rw [usable_iff]
    decide

end Span

end ServiceEngine
