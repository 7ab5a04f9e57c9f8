import Mathlib
import ServiceEngine.Proofs.Text.Words
import ServiceEngine.Proofs.Time.Cadence

/-!
# Counts in cadences

A cadence is cut into words, and a number and a unit among them are put together again and read as a span. That
reader skips white space between digits and takes several numbers with units in a row, so that it could find
something else in the text than the words say. It does not (`Timing.cadence_counts_scale`): only the words count,
whatever their letter case and the white space around them, and `every n u` is `n` times `every u`.
-/

namespace ServiceEngine

/-- A span that is `n` times as long. -/
def Span.times (n : Nat) (d : Span) : Span := .ofNanos (n * d.total)

namespace Timing

/-- The text has these words: their letters in any case, white space between them and perhaps around them. -/
def Reads (text : String) (words : List String) : Prop :=
  ∃ written, Text.Spaced written text.toList ∧ written.map Text.lower = words.map String.toList

/-- A text has words just if it is cut into them, in lower case. -/
theorem reads_iff {text : String} {words : List String} :
    Reads text words ↔ (Text.words (Text.lower text.toList)).map String.ofList = words := by
  -- Texts and lists of characters are the same thing here.
  have hofList : ∀ l : List (List Char), l.map String.ofList = words ↔ l = words.map String.toList := by
    intro l
    constructor
    · rintro rfl
      simp
    · rintro rfl
      simp
  rw [hofList, Text.words_lower]
  constructor
  · rintro ⟨written, hspaced, hlower⟩
    rw [hspaced.words_eq, hlower]
  · intro h
    exact ⟨Text.words text.toList, Text.spaced_words text.toList, h⟩

theorem Reads.ofCadence_iff {text : String} {words : List String} (h : Reads text words) (timing : Timing) :
    ofCadence text = .ok timing ↔ Says words timing := by
  rw [ofCadence_eq_ok_iff, reads_iff.mp h]

/-- What is accepted has words, and they say what it gives. -/
theorem exists_reads_of_ofCadence {text : String} {timing : Timing} (h : ofCadence text = .ok timing) :
    ∃ words, Reads text words ∧ Says words timing :=
  ⟨_, reads_iff.mpr rfl, ofCadence_eq_ok_iff.mp h⟩

/-- Each word of a cadence makes a cadence of its own behind `every`. -/
theorem Reads.every {text : String} {words : List String} (h : Reads text words) {word : String}
    (hmem : word ∈ words) : Reads ("every " ++ word) ["every", word] := by
  obtain ⟨written, hspaced, hlower⟩ := h
  have hwritten : word.toList ∈ written.map Text.lower := hlower ▸ List.mem_map_of_mem hmem
  obtain ⟨w, hw, hword⟩ := List.mem_map.mp hwritten
  obtain ⟨hne, hblank⟩ := hspaced.word_of_mem hw
  -- The word in lower case is a word too, and lower case does not change it any more.
  have hne' : word.toList ≠ [] := by
    rw [← hword]
    simpa [Text.lower] using hne
  have hblank' : ∀ c ∈ word.toList, Text.isBlank c = false := by
    intro c hc
    rw [← hword] at hc
    obtain ⟨d, hd, rfl⟩ := List.mem_map.mp hc
    rw [Text.isBlank_toLower]
    exact hblank d hd
  have hsame : Text.lower word.toList = word.toList := by
    rw [← hword]
    simp [Text.lower]
  have htext : ("every " ++ word).toList = "every".toList ++ ' ' :: (word.toList ++ []) := by simp
  refine ⟨["every".toList, word.toList], ?_, ?_⟩
  · rw [htext]
    have hrest : Text.Spaced [word.toList] (word.toList ++ []) := .word hne' hblank' (by simp) .nil
    exact .word (by decide) (by simp [Text.isBlank]) (by simp [Text.isBlank]) (.blank (by decide) hrest)
  · simp only [List.map_cons, List.map_nil, hsame]
    rfl

/-! ## The law of counts -/

theorem ofCadence_congr {text text' : String} (h : Text.Alike text.toList text'.toList) (timing : Timing) :
    ofCadence text = .ok timing ↔ ofCadence text' = .ok timing := by
  rw [ofCadence_eq_ok_iff, ofCadence_eq_ok_iff, Text.words_lower_eq_iff.mpr h]

/-- The words of an interval have one of four forms. -/
theorem Spells.words_cases {words : List String} {d : Span} (h : Spells words d) :
    words = ["hourly"] ∨ words = ["daily"] ∨ (∃ word, words = ["every", word]) ∨
      ∃ count word, words = ["every", count, word] := by
  cases h with
  | hourly => exact Or.inl rfl
  | daily => exact Or.inr (Or.inl rfl)
  | @unit word => exact Or.inr (Or.inr (Or.inl ⟨word, rfl⟩))
  | @units count word => exact Or.inr (Or.inr (Or.inr ⟨count, word, rfl⟩))

/-- **A count, a unit**: what `every n u` says. -/
theorem says_count_iff {count word : String} {timing : Timing} :
    Says ["every", count, word] timing ↔ ∃ n u, (Decimal.Numeral count.toList n ∧ 1 ≤ n ∧ n < Span.wordSize ∧
      isUnitWord word.toList = true ∧ Span.Unit.ofWord? word = some u ∧ u.Holds n) ∧
        timing = .interval (.ofNanos (n * u.nanos)) := by
  constructor
  · intro h
    generalize hwords : ["every", count, word] = words at h
    cases h with
    -- Only one of the forms has three words that begin with `every`.
    | dailyAt => simp at hwords
    | interval hspells hshort =>
      cases hspells with
      | hourly => simp at hwords
      | daily => simp at hwords
      | unit => simp at hwords
      | @units count' word' n u hcount hlt hpos hword hu hcounted =>
        obtain ⟨rfl, rfl⟩ : count = count' ∧ word = word' := by simpa using hwords
        rw [Span.total_ofNanos] at hshort
        exact ⟨n, u, ⟨hcount, hpos, hlt, hword, hu, ⟨hcounted, hshort⟩⟩, rfl⟩
  · rintro ⟨n, u, ⟨hcount, hpos, hlt, hword, hu, hholds⟩, rfl⟩
    exact .interval (.units hcount hlt hpos hword hu hholds.counted) hholds.total_le

/-- With a count, a unit is as many times as long as without. -/
theorem Says.scales {count word : String} {timing : Timing} (h : Says ["every", count, word] timing) :
    ∃ n d, Decimal.Numeral count.toList n ∧ 1 ≤ n ∧ n < Span.wordSize ∧ Says ["every", word] (.interval d) ∧
      timing = .interval (d.times n) := by
  obtain ⟨n, u, ⟨hcount, hpos, hlt, hword, hu, hholds⟩, rfl⟩ := says_count_iff.mp h
  have hone : u.Holds 1 := hholds.mono hpos
  have hshort : (Span.ofNanos u.nanos).total ≤ Span.longest := by
    rw [← Nat.one_mul u.nanos]
    exact hone.total_le
  refine ⟨n, .ofNanos u.nanos, hcount, hpos, hlt, .interval (.unit hword hu hone.counted) hshort, ?_⟩
  rw [Span.times, Span.total_ofNanos]

/-- **Counts scale the unit, and nothing is glued together.** For every text:
letter case and the amount of white space around and between its words change neither whether it is accepted as a
cadence nor the timing; the timing is an interval only if the words are `hourly`, `daily`, `every u` or
`every n u`; and if the words are `every n u` and it is accepted, `n` spells a word of 64 bits that is not zero,
`every u` is accepted, and the interval is exactly `n` times that of `every u`. It is accepted just if `n` is such a
number, `u` a unit of letters only, and so many of it can be counted. -/
theorem cadence_counts_scale (text : String) :
    (∀ text', Text.Alike text.toList text'.toList → ∀ timing,
      ofCadence text = .ok timing ↔ ofCadence text' = .ok timing) ∧
    (∀ d, ofCadence text = .ok (.interval d) → Reads text ["hourly"] ∨ Reads text ["daily"] ∨
      (∃ word, Reads text ["every", word]) ∨ ∃ count word, Reads text ["every", count, word]) ∧
    ∀ count word, Reads text ["every", count, word] →
      (∀ timing, ofCadence text = .ok timing → ∃ n d, Decimal.Numeral count.toList n ∧ 1 ≤ n ∧
        n < Span.wordSize ∧ ofCadence ("every " ++ word) = .ok (.interval d) ∧ timing = .interval (d.times n)) ∧
      ((∃ timing, ofCadence text = .ok timing) ↔ ∃ n u, Decimal.Numeral count.toList n ∧ 1 ≤ n ∧
        n < Span.wordSize ∧ isUnitWord word.toList = true ∧ Span.Unit.ofWord? word = some u ∧ u.Holds n) := by
  refine ⟨fun text' => ofCadence_congr, ?_, ?_⟩
  -- An interval is said in one of four ways.
  · intro d h
    obtain ⟨words, hreads, hspells, -⟩ := exists_reads_of_ofCadence h
    rcases hspells.words_cases with rfl | rfl | ⟨word, rfl⟩ | ⟨count, word, rfl⟩
    · exact Or.inl hreads
    · exact Or.inr (Or.inl hreads)
    · exact Or.inr (Or.inr (Or.inl ⟨word, hreads⟩))
    · exact Or.inr (Or.inr (Or.inr ⟨count, word, hreads⟩))
  -- The same unit without the count is a cadence of its own.
  · intro count word hreads
    have hevery : Reads ("every " ++ word) ["every", word] := hreads.every (by simp)
    refine ⟨?_, ?_, ?_⟩
    · intro timing h
      obtain ⟨n, d, hcount, hpos, hlt, hunit, rfl⟩ := ((hreads.ofCadence_iff timing).mp h).scales
      exact ⟨n, d, hcount, hpos, hlt, (hevery.ofCadence_iff _).mpr hunit, rfl⟩
    · rintro ⟨timing, h⟩
      obtain ⟨n, u, haccepts, -⟩ := says_count_iff.mp ((hreads.ofCadence_iff timing).mp h)
      exact ⟨n, u, haccepts⟩
    · rintro ⟨n, u, haccepts⟩
      exact ⟨_, (hreads.ofCadence_iff _).mpr (says_count_iff.mpr ⟨n, u, haccepts, rfl⟩)⟩

/-- Ninety minutes, shouted and spread out, with a sign and a leading zero. -/
theorem cadence_counts_scale_of_minutes :
    Reads " EVERY  +090\tMinutes " ["every", "+090", "minutes"] ∧
      (∃ timing, ofCadence " EVERY  +090\tMinutes " = .ok timing) ∧
      ∀ timing, ofCadence " EVERY  +090\tMinutes " = .ok timing → ∃ n d, Decimal.Numeral "+090".toList n ∧ 1 ≤ n ∧
        n < Span.wordSize ∧ ofCadence "every minutes" = .ok (.interval d) ∧ timing = .interval (d.times n) := by
  have hreads : Reads " EVERY  +090\tMinutes " ["every", "+090", "minutes"] := reads_iff.mpr (by decide)
  obtain ⟨hscales, haccepts⟩ := (cadence_counts_scale " EVERY  +090\tMinutes ").2.2 _ _ hreads
  have hnumeral : Decimal.Numeral "+090".toList 90 :=
    (Decimal.unsigned?_eq_some_iff.mp (by decide : Decimal.unsigned? Span.wordSize "+090".toList = some 90)).1
  refine ⟨hreads, haccepts.mpr ⟨90, .medium 60, hnumeral, by decide, by decide, by decide, rfl, ?_⟩, hscales⟩
  exact ⟨by decide, by decide⟩

end Timing

end ServiceEngine
