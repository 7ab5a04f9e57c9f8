import Mathlib
import ServiceEngine.Text.Split

/-!
# Texts and their parts

What each way of splitting a text says about the text.

- Parts between separators are put together again by joining them (`intercalate_splitBy`), and joined texts
  come apart where each of them does (`splitBy_intercalate`).
- The non-empty parts of a text do not depend on separators in front, behind or beside each other
  (`SameBetween.pieces_eq`).
- The words of a text are what stands between its runs of white space. `Spaced` describes the texts that have
  given words, character by character and without any splitting; `words_eq_iff` says that the words of a text
  are those for which it is `Spaced`.

So neither the case of letters nor the amount of white space matters to what the words of a text spell
(`Alike`, `words_lower_eq_iff`).
-/

namespace ServiceEngine.Text

/-! ## Parts between separators -/

/-- The parts of a text are those that the library cuts it into. -/
theorem splitBy_eq_splitOnP (p : Char → Bool) (cs : List Char) : splitBy p cs = cs.splitOnP p := by
  induction cs with
  | nil => rfl
  | cons c rest ih =>
    simp only [splitBy, List.splitOnP_cons_eq_if_modifyHead, ih]
    -- The library changes the first part in place; there always is one.
    cases hparts : rest.splitOnP p with
    | nil => exact absurd hparts (List.splitOnP_ne_nil p rest)
    | cons first more => rfl

theorem splitBy_ne_nil (p : Char → Bool) (cs : List Char) : splitBy p cs ≠ [] := by
  rw [splitBy_eq_splitOnP]
  exact List.splitOnP_ne_nil p cs

theorem splitBy_of_forall {p : Char → Bool} {cs : List Char} (h : ∀ c ∈ cs, p c = false) :
    splitBy p cs = [cs] := by
  rw [splitBy_eq_splitOnP]
  exact List.splitOnP_eq_singleton h

theorem splitBy_of_notMem {sep : Char} {cs : List Char} (h : sep ∉ cs) : splitBy (· = sep) cs = [cs] := by
  apply splitBy_of_forall
  intro c hc
  apply decide_eq_false
  rintro rfl
  exact h hc

theorem splitBy_append_cons {p : Char → Bool} {c : Char} (hc : p c = true) (cs cs' : List Char) :
    splitBy p (cs ++ c :: cs') = splitBy p cs ++ splitBy p cs' := by
  simp only [splitBy_eq_splitOnP]
  exact List.splitOnP_append_cons cs cs' hc

/-- The parts of a text, joined by the separator, are the text. -/
theorem intercalate_splitBy (sep : Char) (cs : List Char) :
    [sep].intercalate (splitBy (· = sep) cs) = cs := by
  rw [splitBy_eq_splitOnP]
  exact List.intercalate_splitOn sep

/-- Texts that are joined by the separator have the parts of each of them. -/
theorem splitBy_intercalate (sep : Char) {texts : List (List Char)} (hne : texts ≠ []) :
    splitBy (· = sep) ([sep].intercalate texts) = texts.flatMap (splitBy (· = sep)) := by
  induction texts with
  | nil => exact absurd rfl hne
  | cons text rest ih =>
    cases rest with
    | nil => simp [List.intercalate]
    | cons next more =>
      have hjoin : [sep].intercalate (text :: next :: more) =
          text ++ sep :: [sep].intercalate (next :: more) := by
        rw [List.intercalate_cons_cons, List.append_assoc]
        rfl
      rw [hjoin, splitBy_append_cons (by simp), ih (List.cons_ne_nil next more)]
      rfl

/-- No separator stands in a part. -/
theorem notMem_of_mem_splitBy {sep : Char} {cs part : List Char} (h : part ∈ splitBy (· = sep) cs) :
    sep ∉ part := by
  induction cs generalizing part with
  | nil => simp_all [splitBy]
  | cons c rest ih =>
    cases hparts : splitBy (· = sep) rest with
    | nil => exact absurd hparts (splitBy_ne_nil _ rest)
    | cons first more =>
      rw [hparts] at ih
      obtain ⟨hfirst, hmore⟩ := List.forall_mem_cons.mp (fun part hpart => ih hpart)
      simp only [splitBy, hparts] at h
      split at h
      -- A separator starts an empty part.
      case isTrue =>
        rcases List.mem_cons.mp h with rfl | h
        · exact List.not_mem_nil
        · exact ih h
      -- Any other character goes in front of the first part.
      case isFalse hc =>
        rcases List.mem_cons.mp h with rfl | h
        · simpa [Ne.symm (by simpa using hc : c ≠ sep)] using hfirst
        · exact hmore part h

/-- A text is not cut just if it has no separator. -/
theorem cut?_eq_none_iff {sep : Char} {cs : List Char} : cut? sep cs = none ↔ sep ∉ cs := by
  induction cs with
  | nil => simp [cut?]
  | cons c rest ih =>
    by_cases hc : c = sep
    · simp [cut?, hc]
    · simp [cut?, hc, Ne.symm hc, ih]

/-! ## Separators that separate nothing -/

@[simp] theorem pieces_nil (p : Char → Bool) : pieces p [] = [] := rfl

theorem pieces_cons (p : Char → Bool) (c : Char) (cs : List Char) (hc : p c = true) :
    pieces p (c :: cs) = pieces p cs := by
  simp [pieces, splitBy, hc]

theorem pieces_of_notMem {sep : Char} {cs : List Char} (hne : cs ≠ []) (h : sep ∉ cs) :
    pieces (· = sep) cs = [cs] := by
  rw [pieces, splitBy_of_notMem h]
  simp [hne]

theorem pieces_append_cons {p : Char → Bool} {c : Char} (hc : p c = true) (cs cs' : List Char) :
    pieces p (cs ++ c :: cs') = pieces p cs ++ pieces p cs' := by
  rw [pieces, splitBy_append_cons hc, List.filter_append]
  rfl

/-- Texts that are joined by the separator have the non-empty parts of each of them. -/
theorem pieces_intercalate (sep : Char) (texts : List (List Char)) :
    pieces (· = sep) ([sep].intercalate texts) = texts.flatMap (pieces (· = sep)) := by
  cases texts with
  | nil => rfl
  | cons text rest =>
    rw [pieces, splitBy_intercalate sep (List.cons_ne_nil text rest), List.filter_flatMap]
    rfl

/-- A text, and the same text with one more separator: in front, behind, or beside one that is there. -/
inductive Padded (sep : Char) : List Char → List Char → Prop where
  | front (cs : List Char) : Padded sep cs (sep :: cs)
  | behind (cs : List Char) : Padded sep cs (cs ++ [sep])
  | doubled (before after : List Char) : Padded sep (before ++ sep :: after) (before ++ sep :: sep :: after)

/-- Two texts that differ at most in separators that separate nothing. -/
def SameBetween (sep : Char) : List Char → List Char → Prop := Relation.EqvGen (Padded sep)

/-- One separator more that separates nothing leaves the parts as they are. -/
theorem Padded.pieces_eq {sep : Char} {cs cs' : List Char} (h : Padded sep cs cs') :
    pieces (· = sep) cs = pieces (· = sep) cs' := by
  cases h with
  | front => rw [pieces_cons _ _ _ (by simp)]
  | behind => rw [pieces_append_cons (by simp), pieces_nil, List.append_nil]
  | doubled before after =>
    rw [pieces_append_cons (by simp), pieces_append_cons (by simp), pieces_cons _ _ _ (by simp)]

/-- **Separators that separate nothing do not count.** -/
theorem SameBetween.pieces_eq {sep : Char} {cs cs' : List Char} (h : SameBetween sep cs cs') :
    pieces (· = sep) cs = pieces (· = sep) cs' := by
  induction h with
  | rel _ _ hpadded => exact hpadded.pieces_eq
  | refl => rfl
  | symm _ _ _ ih => exact ih.symm
  | trans _ _ _ _ _ ih ih' => exact ih.trans ih'

/-! ## Words -/

/-- The texts with given words. A word is not empty and has no white space in it, and what follows it is
nothing or white space. -/
inductive Spaced : List (List Char) → List Char → Prop where
  | nil : Spaced [] []
  | blank {words : List (List Char)} {c : Char} {cs : List Char} (hc : isBlank c = true)
      (hcs : Spaced words cs) : Spaced words (c :: cs)
  | word {words : List (List Char)} {word cs : List Char} (hne : word ≠ [])
      (hword : ∀ c ∈ word, isBlank c = false) (hend : ∀ c ∈ cs.head?, isBlank c = true)
      (hcs : Spaced words cs) : Spaced (word :: words) (word ++ cs)

/-- What is left of a text behind its first part, together with the words of the other parts. -/
theorem spaced_of_splitBy {cs first : List Char} {more : List (List Char)}
    (h : splitBy isBlank cs = first :: more) :
    (∀ c ∈ first, isBlank c = false) ∧ ∃ rest, cs = first ++ rest ∧ (∀ c ∈ rest.head?, isBlank c = true) ∧
      Spaced (more.filter (fun part => !part.isEmpty)) rest := by
  induction cs generalizing first more with
  | nil =>
    obtain ⟨rfl, rfl⟩ := List.cons.inj h
    exact ⟨by simp, [], rfl, by simp, .nil⟩
  | cons c cs ih =>
    cases hparts : splitBy isBlank cs with
    | nil => exact absurd hparts (splitBy_ne_nil isBlank cs)
    | cons next others =>
      obtain ⟨hnext, rest, rfl, hend, hrest⟩ := ih hparts
      simp only [splitBy, hparts] at h
      by_cases hc : isBlank c = true
      -- The first part is empty, and the next one counts if it is not.
      · rw [if_pos hc] at h
        obtain ⟨rfl, rfl⟩ := List.cons.inj h
        refine ⟨by simp, c :: (next ++ rest), rfl, by simpa using hc, .blank hc ?_⟩
        cases next with
        | nil => simpa using hrest
        | cons d next => exact .word (List.cons_ne_nil d next) hnext hend hrest
      -- The first part is one character longer.
      · rw [if_neg hc] at h
        obtain ⟨rfl, rfl⟩ := List.cons.inj h
        refine ⟨?_, rest, rfl, hend, hrest⟩
        exact List.forall_mem_cons.mpr ⟨by simpa using hc, hnext⟩

/-- A text is spaced by its words. -/
theorem spaced_words (cs : List Char) : Spaced (words cs) cs := by
  cases hparts : splitBy isBlank cs with
  | nil => exact absurd hparts (splitBy_ne_nil isBlank cs)
  | cons first more =>
    obtain ⟨hfirst, rest, rfl, hend, hrest⟩ := spaced_of_splitBy hparts
    rw [words, pieces, hparts]
    cases first with
    | nil => simpa using hrest
    | cons c first => exact .word (List.cons_ne_nil c first) hfirst hend hrest

/-- A text that is spaced by words has these words. -/
theorem Spaced.words_eq {ws : List (List Char)} {cs : List Char} (h : Spaced ws cs) : words cs = ws := by
  induction h with
  | nil => rfl
  | blank hc _ ih =>
    rw [words, pieces_cons isBlank _ _ hc]
    exact ih
  | @word ws word cs hne hword hend _ ih =>
    cases cs with
    -- The text ends with the word, or white space follows it.
    | nil =>
      rw [List.append_nil, words, pieces, splitBy_of_forall hword, ← ih]
      simp [hne, words, pieces, splitBy]
    | cons c rest =>
      have hc : isBlank c = true := hend c rfl
      rw [words, pieces_cons isBlank _ _ hc] at ih
      rw [words, pieces, splitBy_append_cons hc, splitBy_of_forall hword, ← ih]
      simp [hne, pieces]

/-- **The words of a text** are the ones for which it is spaced. -/
theorem words_eq_iff {ws : List (List Char)} {cs : List Char} : words cs = ws ↔ Spaced ws cs := by
  constructor
  · rintro rfl
    exact spaced_words cs
  · exact Spaced.words_eq

/-- Words are not empty and have no white space in them. -/
theorem Spaced.word_of_mem {ws : List (List Char)} {cs : List Char} (h : Spaced ws cs) {word : List Char}
    (hmem : word ∈ ws) : word ≠ [] ∧ ∀ c ∈ word, isBlank c = false := by
  induction h with
  | nil => cases hmem
  | blank _ _ ih => exact ih hmem
  | word hne hword _ _ ih =>
    rcases List.mem_cons.mp hmem with rfl | hmem
    · exact ⟨hne, hword⟩
    · exact ih hmem

/-! ## Letter case -/

/-- No visible character of ASCII is white space. -/
theorem isBlank_of_visible {c : Char} (hlow : 33 ≤ c.toNat) (hhigh : c.toNat ≤ 126) : isBlank c = false := by
  simp [isBlank]
  omega

/-- Lower case turns no letter into white space. -/
theorem isBlank_toLower (c : Char) : isBlank c.toLower = isBlank c := by
  unfold Char.toLower
  split
  case isTrue hupper =>
    -- Neither a letter from `A` to `Z` nor the same letter in lower case is white space.
    obtain ⟨hlow, hhigh⟩ := hupper
    rw [ge_iff_le, UInt32.le_iff_toNat_le] at hlow
    rw [UInt32.le_iff_toNat_le] at hhigh
    have hlow' : 65 ≤ c.toNat := hlow
    have hhigh' : c.toNat ≤ 90 := hhigh
    have hcode : (c.val + ('a'.val - 'A'.val)).toNat = c.toNat + 32 := by
      rw [UInt32.toNat_add]
      exact Nat.mod_eq_of_lt (show c.toNat + 32 < 2 ^ 32 by omega)
    rw [isBlank_of_visible (c := c) (by omega) (by omega)]
    exact isBlank_of_visible (show 33 ≤ (c.val + ('a'.val - 'A'.val)).toNat by omega)
      (show (c.val + ('a'.val - 'A'.val)).toNat ≤ 126 by omega)
  case isFalse => rfl

/-- Lower case leaves the words in their places. -/
theorem Spaced.lower {ws : List (List Char)} {cs : List Char} (h : Spaced ws cs) :
    Spaced (ws.map Text.lower) (Text.lower cs) := by
  induction h with
  | nil => exact .nil
  | blank hc _ ih => exact .blank (by rwa [isBlank_toLower]) ih
  | @word ws word cs hne hword hend _ ih =>
    have happend : Text.lower (word ++ cs) = Text.lower word ++ Text.lower cs := List.map_append
    rw [happend, List.map_cons]
    refine .word (by simpa [Text.lower] using hne) ?_ ?_ ih
    -- The letters of the word.
    · intro c hc
      obtain ⟨d, hd, rfl⟩ := List.mem_map.mp hc
      rw [isBlank_toLower]
      exact hword d hd
    -- The character behind the word, if there is one.
    · intro c hc
      rw [Text.lower, List.head?_map] at hc
      obtain ⟨d, hd, rfl⟩ := Option.map_eq_some_iff.mp hc
      rw [isBlank_toLower]
      exact hend d hd

theorem words_lower (cs : List Char) : words (lower cs) = (words cs).map lower :=
  (spaced_words cs).lower.words_eq

/-- Two texts that differ at most in the case of letters and in the white space around and between words. -/
def Alike (cs cs' : List Char) : Prop :=
  ∃ ws ws', Spaced ws cs ∧ Spaced ws' cs' ∧
    List.Forall₂ (List.Forall₂ (fun c c' => c.toLower = c'.toLower)) ws ws'

theorem lower_eq_iff {cs cs' : List Char} :
    lower cs = lower cs' ↔ List.Forall₂ (fun c c' => c.toLower = c'.toLower) cs cs' := by
  rw [lower, lower, ← List.forall₂_eq_eq_eq, List.forall₂_map_left_iff, List.forall₂_map_right_iff]

/-- **Texts have the same words in lower case just if they are alike.** -/
theorem words_lower_eq_iff {cs cs' : List Char} : words (lower cs) = words (lower cs') ↔ Alike cs cs' := by
  rw [words_lower, words_lower, ← List.forall₂_eq_eq_eq, List.forall₂_map_left_iff,
    List.forall₂_map_right_iff]
  simp only [lower_eq_iff]
  constructor
  · intro h
    exact ⟨words cs, words cs', spaced_words cs, spaced_words cs', h⟩
  · rintro ⟨ws, ws', hws, hws', h⟩
    rwa [hws.words_eq, hws'.words_eq]

end ServiceEngine.Text
